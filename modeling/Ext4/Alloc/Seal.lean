import Ext4.Alloc.Ledger
import Ext4.Alloc.Load

namespace Ext4

open Bytes Specimen

namespace BlockGroupDesc

variable {seed : UInt32} {group off p w : Nat} {wide : Bool} {x y : UInt32} {buf : Block}
  {desc : BlockGroupDesc} {descOffset : Nat}

def storedCsum (buf : Block) (lo hi : Nat) (wide : Bool) : Nat :=
  getLE buf lo 2 + if wide then getLE buf hi 2 * 2 ^ 16 else 0

def keptCsum (wide : Bool) (csum : UInt32) : Nat := if wide then csum.toNat else csum.toNat % 256 ^ 2

theorem getLE_stampChecksums (h : p + w ≤ off + 24 ∨ off + 28 ≤ p ∧ p + w ≤ off + 30 ∨
    off + 32 ≤ p ∧ (wide = true → p + w ≤ off + 56 ∨ off + 60 ≤ p)) :
    getLE (stampChecksums seed group off wide x y buf) p w = getLE buf p w := by
  unfold stampChecksums
  cases wide with
  | false =>
    simp only [Bool.false_eq_true, if_false]
    simp (disch := omega) only [getLE_putLE_disjoint]
  | true =>
    simp only [if_true]
    simp only [true_implies] at h
    simp (disch := omega) only [getLE_putLE_disjoint]

theorem byteAt_stampChecksums {i : Nat} (h : i < off + 24 ∨ off + 28 ≤ i ∧ i < off + 30 ∨
    off + 32 ≤ i ∧ (wide = true → i < off + 56 ∨ off + 60 ≤ i)) :
    byteAt (stampChecksums seed group off wide x y buf) i = byteAt buf i := by
  unfold stampChecksums
  cases wide with
  | false =>
    simp only [Bool.false_eq_true, if_false]
    rw [byteAt_putLE_out (by omega), byteAt_putLE_out (by omega), byteAt_putLE_out (by omega)]
  | true =>
    simp only [if_true]
    simp only [true_implies] at h
    rw [byteAt_putLE_out (by omega), byteAt_putLE_out (by omega), byteAt_putLE_out (by omega),
      byteAt_putLE_out (by omega), byteAt_putLE_out (by omega)]

theorem groupDescChecksum_putLE {v : Nat} :
    groupDescChecksum seed group (putLE buf (off + 30) 2 v) off wide =
      groupDescChecksum seed group buf off wide := by
  unfold groupDescChecksum
  dsimp only
  rw [slice_putLE_disjoint (by omega), slice_putLE_disjoint (by omega)]

theorem groupDescChecksum_lt : groupDescChecksum seed group buf off wide < 256 ^ 2 :=
  Nat.mod_lt _ (by decide)

theorem checksum_stampChecksums (h : off + 32 ≤ 4096) :
    getLE (stampChecksums seed group off wide x y buf) (off + 30) 2 =
      groupDescChecksum seed group (stampChecksums seed group off wide x y buf) off wide := by
  unfold stampChecksums
  dsimp only
  rw [getLE_putLE_same (by omega), groupDescChecksum_putLE]
  exact Nat.mod_eq_of_lt groupDescChecksum_lt

theorem storedCsum_stampChecksums (h : off + 32 ≤ 4096) (hwide : wide = true → off + 64 ≤ 4096) :
    storedCsum (stampChecksums seed group off wide x y buf) (off + 24) (off + 56) wide = keptCsum wide x ∧
      storedCsum (stampChecksums seed group off wide x y buf) (off + 26) (off + 58) wide =
        keptCsum wide y := by
  have hx := x.toNat_lt
  have hy := y.toNat_lt
  unfold stampChecksums storedCsum keptCsum
  cases wide with
  | false =>
    simp only [Bool.false_eq_true, if_false, add_zero]
    refine ⟨?_, ?_⟩
    · simp (disch := omega) only [getLE_putLE_disjoint, getLE_putLE_same]
    · rw [getLE_putLE_disjoint (by omega), getLE_putLE_same (by omega)]
  | true =>
    have hfit := hwide rfl
    simp only [if_true]
    refine ⟨?_, ?_⟩
    · simp (disch := omega) only [getLE_putLE_disjoint, getLE_putLE_same]
      omega
    · simp (disch := omega) only [getLE_putLE_disjoint, getLE_putLE_same]
      omega

theorem getLE_patchInto (h : p + w ≤ descOffset % 4096 + 12 ∨
    descOffset % 4096 + 20 ≤ p ∧ p + w ≤ descOffset % 4096 + 28 ∨ descOffset % 4096 + 30 ≤ p) :
    getLE (desc.patchInto descOffset buf) p w = getLE buf p w := by
  unfold patchInto
  dsimp only
  simp (disch := omega) only [getLE_putLE_disjoint]

theorem byteAt_patchInto {i : Nat} (hflags : getLE buf (descOffset % 4096 + 18) 2 = desc.flags.toNat)
    (h : i < descOffset % 4096 + 12 ∨ descOffset % 4096 + 18 ≤ i ∧ i < descOffset % 4096 + 28 ∨
      descOffset % 4096 + 30 ≤ i) : byteAt (desc.patchInto descOffset buf) i = byteAt buf i := by
  unfold patchInto
  dsimp only
  rw [putLE_getLE (v := desc.flags.toNat)]
  · rw [byteAt_putLE_out (by omega), byteAt_putLE_out (by omega), byteAt_putLE_out (by omega),
      byteAt_putLE_out (by omega)]
  · simp (disch := omega) only [getLE_putLE_disjoint]
    exact hflags

end BlockGroupDesc

namespace BlockGroup

open BlockGroupDesc

def wide (group : BlockGroup) : Bool := 64 ≤ group.descSize

def descOff (group : BlockGroup) : Nat := group.descOffset % 4096

structure Stamped (group : BlockGroup) (seed : UInt32) (blockBits inodeBits buf : Block) : Prop where
  decoded : fromRaw buf group.descOff group.wide = group.metadata.desc
  blockCsum : storedCsum buf (group.descOff + 24) (group.descOff + 56) group.wide =
    keptCsum group.wide (bitmapChecksum seed blockBits (group.nrBlocksPerGroup / 8))
  inodeCsum : storedCsum buf (group.descOff + 26) (group.descOff + 58) group.wide =
    keptCsum group.wide (bitmapChecksum seed inodeBits ((group.nrInodesPerGroup + 7) / 8))
  checksum : getLE buf (group.descOff + 30) 2 =
    groupDescChecksum seed group.groupIdx buf group.descOff group.wide

structure Narrow (desc : BlockGroupDesc) : Prop where
  freeBlocks : desc.freeBlocksCount < 256 ^ 2
  freeInodes : desc.freeInodesCount < 256 ^ 2
  usedDirs : desc.usedDirsCount < 256 ^ 2
  unused : desc.itableUnused < 256 ^ 2

structure Alike (desc desc' : BlockGroupDesc) : Prop where
  blockBitmapBid : desc'.blockBitmapBid = desc.blockBitmapBid
  inodeBitmapBid : desc'.inodeBitmapBid = desc.inodeBitmapBid
  inodeTableBid : desc'.inodeTableBid = desc.inodeTableBid
  flags : desc'.flags = desc.flags

variable {group : BlockGroup} {seed : UInt32} {m : BlockGroupMetadata} {buf buf' : Block} {p w i : Nat} {type : InodeType}

theorem patchDesc_eq (hseed : group.csumSeed = some seed) : group.patchDesc m buf =
    stampChecksums seed group.groupIdx group.descOff group.wide
      (bitmapChecksum seed m.blockBitmap.asBytes (group.nrBlocksPerGroup / 8))
      (bitmapChecksum seed m.inodeBitmap.asBytes ((group.nrInodesPerGroup + 7) / 8))
      (m.desc.patchInto group.descOffset buf) := by
  unfold patchDesc stampDescCsumInBlock
  rw [hseed]
  rfl

theorem getLE_patchDesc (hseed : group.csumSeed = some seed) (h : p + w ≤ group.descOff + 12 ∨
    group.descOff + 20 ≤ p ∧ p + w ≤ group.descOff + 24 ∨
      group.descOff + 32 ≤ p ∧ (group.wide = true → p + w ≤ group.descOff + 56 ∨ group.descOff + 60 ≤ p)) :
    getLE (group.patchDesc m buf) p w = getLE buf p w := by
  rw [patchDesc_eq hseed, getLE_stampChecksums ?_, getLE_patchInto ?_]
  · unfold descOff at h
    omega
  · rcases h with h | h | ⟨hlo, hhi⟩
    · exact .inl (by omega)
    · exact .inl (by omega)
    · exact .inr (.inr ⟨hlo, hhi⟩)

theorem hi_eq_zero {lo hi : Nat} (h : lo ||| hi <<< 16 < 256 ^ 2) : hi = 0 := by
  have hle : hi * 2 ^ 16 ≤ lo ||| hi <<< 16 := by
    rw [← Nat.shiftLeft_eq]
    exact Nat.right_le_or
  omega

theorem Alike.eq {desc desc' : BlockGroupDesc} (h : Alike desc desc') :
    desc' = { desc with
      freeBlocksCount := desc'.freeBlocksCount
      freeInodesCount := desc'.freeInodesCount
      usedDirsCount := desc'.usedDirsCount
      itableUnused := desc'.itableUnused } := by
  obtain ⟨hblock, hinode, htable, hflags⟩ := h
  cases desc'
  simp only at hblock hinode htable hflags
  rw [hblock, hinode, htable, hflags]

theorem getLE_patchDesc_written (m : BlockGroupMetadata) (buf : Block)
    (hseed : group.csumSeed = some seed) (hfits : group.descOff + 32 ≤ 4096) :
    getLE (group.patchDesc m buf) (group.descOff + 12) 2 = m.desc.freeBlocksCount % 256 ^ 2 ∧
      getLE (group.patchDesc m buf) (group.descOff + 14) 2 = m.desc.freeInodesCount % 256 ^ 2 ∧
      getLE (group.patchDesc m buf) (group.descOff + 16) 2 = m.desc.usedDirsCount % 256 ^ 2 ∧
      getLE (group.patchDesc m buf) (group.descOff + 18) 2 = m.desc.flags.toNat % 256 ^ 2 ∧
      getLE (group.patchDesc m buf) (group.descOff + 28) 2 = m.desc.itableUnused % 256 ^ 2 := by
  rw [patchDesc_eq hseed, getLE_stampChecksums (.inl (by omega)), getLE_stampChecksums (.inl (by omega)),
    getLE_stampChecksums (.inl (by omega)), getLE_stampChecksums (.inl (by omega)),
    getLE_stampChecksums (.inr (.inl (by omega)))]
  unfold descOff at hfits ⊢
  unfold patchInto
  dsimp only
  refine ⟨?_, ?_, ?_, ?_, ?_⟩
  · simp (disch := omega) only [getLE_putLE_disjoint, getLE_putLE_same]
  · simp (disch := omega) only [getLE_putLE_disjoint, getLE_putLE_same]
  · simp (disch := omega) only [getLE_putLE_disjoint, getLE_putLE_same]
  · rw [getLE_putLE_disjoint (by omega), getLE_putLE_same (by omega)]
  · rw [getLE_putLE_same (by omega)]

theorem fromRaw_patchDesc (hseed : group.csumSeed = some seed) (hfits : group.descOff + 32 ≤ 4096)
    (hold : fromRaw buf group.descOff group.wide = group.metadata.desc)
    (hnarrow : Narrow group.metadata.desc) (hnarrow' : Narrow m.desc) (halike : Alike group.metadata.desc m.desc) :
    fromRaw (group.patchDesc m buf) group.descOff group.wide = m.desc := by
  obtain ⟨hblocks, hinodes, hdirs, hflags, hunused⟩ := getLE_patchDesc_written m buf hseed hfits
  have hhi : (if group.wide then getLE buf (group.descOff + 50) 2 <<< 16 else 0) = 0 := by
    split_ifs with hwide
    · have hvalue := congrArg BlockGroupDesc.itableUnused hold
      simp only [fromRaw, hwide, if_true] at hvalue
      have hlt := hnarrow.unused
      rw [← hvalue] at hlt
      rw [hi_eq_zero hlt]
      rfl
    · rfl
  have hsame : m.desc.flags = .ofNat (getLE buf (group.descOff + 18) 2) := by
    rw [halike.flags, ← hold]
    rfl
  rw [halike.eq, ← hold]
  simp only [fromRaw, BlockGroupDesc.mk.injEq]
  refine ⟨?_, ?_, ?_, ?_, ?_, ?_, ?_, ?_⟩
  · rw [getLE_patchDesc hseed (by omega), getLE_patchDesc hseed (by omega)]
  · rw [getLE_patchDesc hseed (by omega), getLE_patchDesc hseed (by omega)]
  · rw [getLE_patchDesc hseed (by omega), getLE_patchDesc hseed (by omega)]
  · rw [hblocks]
    exact Nat.mod_eq_of_lt hnarrow'.freeBlocks
  · rw [hinodes]
    exact Nat.mod_eq_of_lt hnarrow'.freeInodes
  · rw [hdirs]
    exact Nat.mod_eq_of_lt hnarrow'.usedDirs
  · have hlt : m.desc.flags.toNat < 256 ^ 2 := m.desc.flags.toNat_lt
    rw [hflags, Nat.mod_eq_of_lt hlt, UInt16.ofNat_toNat]
    exact hsame
  · rw [hunused, getLE_patchDesc hseed (by omega), hhi, Nat.or_zero]
    exact Nat.mod_eq_of_lt hnarrow'.unused

theorem stamped_patchDesc (hseed : group.csumSeed = some seed) (hsize : 32 ≤ group.descSize)
    (hfits : group.descOff + group.descSize ≤ 4096)
    (hold : fromRaw buf group.descOff group.wide = group.metadata.desc)
    (hnarrow : Narrow group.metadata.desc) (hnarrow' : Narrow m.desc) (halike : Alike group.metadata.desc m.desc) :
    ({ group with metadata := m } : BlockGroup).Stamped seed m.blockBitmap.asBytes m.inodeBitmap.asBytes
      (group.patchDesc m buf) := by
  have hwide : group.wide = true → group.descOff + 64 ≤ 4096 := by
    intro h
    have hsize : 64 ≤ group.descSize := of_decide_eq_true h
    omega
  have hcsums : storedCsum (group.patchDesc m buf) (group.descOff + 24) (group.descOff + 56) group.wide =
        keptCsum group.wide (bitmapChecksum seed m.blockBitmap.asBytes (group.nrBlocksPerGroup / 8)) ∧
      storedCsum (group.patchDesc m buf) (group.descOff + 26) (group.descOff + 58) group.wide =
        keptCsum group.wide (bitmapChecksum seed m.inodeBitmap.asBytes ((group.nrInodesPerGroup + 7) / 8)) := by
    rw [patchDesc_eq hseed]
    exact storedCsum_stampChecksums (by omega) hwide
  refine ⟨?_, hcsums.1, hcsums.2, ?_⟩
  · exact fromRaw_patchDesc hseed (by omega) hold hnarrow hnarrow' halike
  · rw [patchDesc_eq hseed]
    exact checksum_stampChecksums (by omega)

def Owned (group : BlockGroup) (i : Nat) : Prop :=
  group.descOff + 12 ≤ i ∧ i < group.descOff + 18 ∨ group.descOff + 24 ≤ i ∧ i < group.descOff + 32 ∨
    group.wide = true ∧ group.descOff + 56 ≤ i ∧ i < group.descOff + 60

theorem Owned.inside (hsize : 32 ≤ group.descSize) (h : group.Owned i) :
    group.descOff ≤ i ∧ i < group.descOff + group.descSize := by
  rcases h with h | h | ⟨hwide, h⟩
  · omega
  · omega
  · have hsize : 64 ≤ group.descSize := of_decide_eq_true hwide
    omega

theorem byteAt_patchDesc (hseed : group.csumSeed = some seed)
    (hold : fromRaw buf group.descOff group.wide = group.metadata.desc)
    (halike : Alike group.metadata.desc m.desc) (h : ¬group.Owned i) :
    byteAt (group.patchDesc m buf) i = byteAt buf i := by
  have hflags : getLE buf (group.descOff + 18) 2 = m.desc.flags.toNat := by
    have hlt : getLE buf (group.descOff + 18) 2 < 256 ^ 2 := getLE_lt _ _ _
    rw [halike.flags, ← hold]
    exact (UInt16.toNat_ofNat_of_lt' hlt).symm
  unfold Owned at h
  simp only [not_or, not_and] at h
  rw [patchDesc_eq hseed, byteAt_stampChecksums ?_, byteAt_patchInto hflags ?_]
  · unfold descOff at h
    omega
  · rcases lt_or_ge i (group.descOff + 32) with hlt | hge
    · exact .inl (by omega)
    · refine .inr (.inr ⟨hge, fun hwide => ?_⟩)
      have hhi := h.2.2 hwide
      omega

theorem slice_congr {off size : Nat} (h : ∀ i, off ≤ i → i < off + size → byteAt buf' i = byteAt buf i)
    {p len : Nat} (hle : p + len ≤ size) : slice buf' (off + p) len = slice buf (off + p) len := by
  unfold slice
  refine List.map_congr_left fun i hi => ?_
  have hlt := List.mem_range.mp hi
  exact h (off + p + i) (by omega) (by omega)

theorem fromRaw_congr {off : Nat} {wide : Bool}
    (hlo : ∀ p w, p + w ≤ 32 → getLE buf' (off + p) w = getLE buf (off + p) w)
    (hhi : wide = true → ∀ p w, p + w ≤ 64 → getLE buf' (off + p) w = getLE buf (off + p) w) :
    fromRaw buf' off wide = fromRaw buf off wide := by
  have hzero := hlo 0 4 (by decide)
  rw [add_zero] at hzero
  cases wide with
  | false =>
    simp only [fromRaw, Bool.false_eq_true, if_false]
    rw [hzero, hlo 4 4 (by decide), hlo 8 4 (by decide), hlo 12 2 (by decide), hlo 14 2 (by decide),
      hlo 16 2 (by decide), hlo 18 2 (by decide), hlo 28 2 (by decide)]
  | true =>
    have hhi := hhi rfl
    simp only [fromRaw, if_true]
    rw [hzero, hlo 4 4 (by decide), hlo 8 4 (by decide), hlo 12 2 (by decide), hlo 14 2 (by decide),
      hlo 16 2 (by decide), hlo 18 2 (by decide), hlo 28 2 (by decide), hhi 32 4 (by decide),
      hhi 36 4 (by decide), hhi 40 4 (by decide), hhi 50 2 (by decide)]

theorem Stamped.congr {blockBits inodeBits : Block} (h : group.Stamped seed blockBits inodeBits buf)
    (hsize : 32 ≤ group.descSize)
    (hbytes : ∀ i, group.descOff ≤ i → i < group.descOff + group.descSize → byteAt buf' i = byteAt buf i) :
    group.Stamped seed blockBits inodeBits buf' := by
  have hlo : ∀ p w, p + w ≤ 32 → slice buf' (group.descOff + p) w = slice buf (group.descOff + p) w :=
    fun p w hle => slice_congr hbytes (by omega)
  have hhi : group.wide = true → ∀ p w, p + w ≤ 64 →
      slice buf' (group.descOff + p) w = slice buf (group.descOff + p) w := fun hwide p w hle => by
    have hsize : 64 ≤ group.descSize := of_decide_eq_true hwide
    exact slice_congr hbytes (by omega)
  have hgetLo : ∀ p w, p + w ≤ 32 → getLE buf' (group.descOff + p) w = getLE buf (group.descOff + p) w :=
    fun p w hle => congrArg leVal (hlo p w hle)
  have hgetHi : group.wide = true → ∀ p w, p + w ≤ 64 →
      getLE buf' (group.descOff + p) w = getLE buf (group.descOff + p) w :=
    fun hwide p w hle => congrArg leVal (hhi hwide p w hle)
  have hcsum : ∀ lo hi, lo + 2 ≤ 32 → hi + 2 ≤ 64 →
      storedCsum buf' (group.descOff + lo) (group.descOff + hi) group.wide =
        storedCsum buf (group.descOff + lo) (group.descOff + hi) group.wide := by
    intro lo hi hlo hhi
    unfold storedCsum
    rw [hgetLo lo 2 hlo]
    split_ifs with hwide
    · rw [hgetHi hwide hi 2 hhi]
    · rfl
  have hzero := hlo 0 30 (by decide)
  rw [add_zero] at hzero
  refine ⟨?_, ?_, ?_, ?_⟩
  · rw [fromRaw_congr hgetLo hgetHi]
    exact h.decoded
  · rw [hcsum 24 56 (by decide) (by decide)]
    exact h.blockCsum
  · rw [hcsum 26 58 (by decide) (by decide)]
    exact h.inodeCsum
  · rw [hgetLo 30 2 (by decide), h.checksum]
    unfold groupDescChecksum
    dsimp only
    rw [hzero]
    split_ifs with hwide
    · rw [hhi hwide 32 32 (by decide)]
    · rfl

structure Orderly (group : BlockGroup) (seed : UInt32) (inodesPerGroup : Nat) : Prop where
  seed : group.csumSeed = some seed
  pos : 0 < inodesPerGroup
  perGroup : group.nrInodesPerGroup = inodesPerGroup
  bits : group.metadata.inodeBitmap.len = group.nrInodesPerGroup
  freeBlocks : group.metadata.desc.freeBlocksCount = group.metadata.blockBitmap.freeIds.card
  freeInodes : group.metadata.desc.freeInodesCount = group.metadata.inodeBitmap.freeIds.card
  usedDirs : group.metadata.desc.usedDirsCount < 256 ^ 2
  unused : group.metadata.desc.itableUnused ≤ group.nrInodesPerGroup
  eager : group.metadata.desc.isBlockUninit = false

theorem Orderly.narrow {n : Nat} (h : group.Orderly seed n) : Narrow group.metadata.desc := by
  have hblocks := group.metadata.blockBitmap.freeIds_card_le.trans group.metadata.blockBitmap.len_le
  have hinodes := group.metadata.inodeBitmap.freeIds_card_le.trans group.metadata.inodeBitmap.len_le
  have hlen := group.metadata.inodeBitmap.len_le
  have hunused := h.unused
  rw [← h.bits] at hunused
  refine ⟨?_, ?_, h.usedDirs, by omega⟩
  · rw [h.freeBlocks]
    omega
  · rw [h.freeInodes]
    omega

theorem Orderly.claim {n count sbFreeBlocks : Nat} {pinnedFrees : List (Nat × Nat)} {r : IdRange}
    (h : group.Orderly seed n) (hc : group.Claimed count sbFreeBlocks pinnedFrees r m) :
    ({ group with metadata := m } : BlockGroup).Orderly seed n ∧ Alike group.metadata.desc m.desc := by
  have heager : ({ group.metadata.desc with
      freeBlocksCount := group.metadata.desc.freeBlocksCount - r.len } : BlockGroupDesc).isBlockUninit =
        false := h.eager
  have hdesc := hc.desc
  rw [clearBlockUninit, heager, if_neg Bool.false_ne_true] at hdesc
  have hbooks := hc.books
  have hfree := h.freeBlocks
  refine ⟨⟨h.seed, h.pos, h.perGroup, ?_, ?_, ?_, ?_, ?_, ?_⟩, ?_⟩
  · simp only [hc.inodes]
    exact h.bits
  · simp only [hdesc]
    omega
  · simp only [hdesc, hc.inodes]
    exact h.freeInodes
  · simp only [hdesc]
    exact h.usedDirs
  · simp only [hdesc]
    exact h.unused
  · simp only [hdesc]
    exact heager
  · rw [hdesc]
    exact ⟨rfl, rfl, rfl, rfl⟩

theorem Orderly.release {n startBit count freed : Nat} (h : group.Orderly seed n)
    (hr : group.Released startBit count freed m) :
    ({ group with metadata := m } : BlockGroup).Orderly seed n ∧ Alike group.metadata.desc m.desc := by
  refine ⟨⟨h.seed, h.pos, h.perGroup, ?_, ?_, ?_, ?_, ?_, ?_⟩, ?_⟩
  · simp only [hr.inodes]
    exact h.bits
  · simp only [hr.desc, hr.books, h.freeBlocks]
  · simp only [hr.desc, hr.inodes]
    exact h.freeInodes
  · simp only [hr.desc]
    exact h.usedDirs
  · simp only [hr.desc]
    exact h.unused
  · simp only [hr.desc]
    exact h.eager
  · rw [hr.desc]
    exact ⟨rfl, rfl, rfl, rfl⟩

theorem itableUnused_le (bitmap : IdBitmap) (n : Nat) : itableUnusedFromBitmap bitmap n ≤ n :=
  Nat.sub_le _ _

theorem Orderly.birth {n i : Nat} (h : group.Orderly seed n)
    (hroom : type.isDirectory = true → group.metadata.desc.usedDirsCount ≠ 2 ^ 16 - 1)
    (hc : group.ClaimedIno type i m) :
    ({ group with metadata := m } : BlockGroup).Orderly seed n ∧ Alike group.metadata.desc m.desc := by
  have hdirs := h.usedDirs
  refine ⟨⟨h.seed, h.pos, h.perGroup, hc.len.trans h.bits, ?_, ?_, ?_, ?_, ?_⟩, ?_⟩
  · simp only [hc.desc, hc.blocks]
    exact h.freeBlocks
  · have hcount := hc.books
    have hfree := h.freeInodes
    simp only [hc.desc]
    omega
  · simp only [hc.desc]
    split_ifs with hdir
    · have hne := hroom hdir
      omega
    · exact hdirs
  · simp only [hc.desc]
    exact itableUnused_le _ _
  · simp only [hc.desc]
    exact h.eager
  · rw [hc.desc]
    exact ⟨rfl, rfl, rfl, rfl⟩

theorem Orderly.death {n i : Nat} (h : group.Orderly seed n) (hi : i < group.metadata.inodeBitmap.len)
    (hset : group.metadata.inodeBitmap.isAllocated i = true) (hr : group.ReleasedIno type i m) :
    ({ group with metadata := m } : BlockGroup).Orderly seed n ∧ Alike group.metadata.desc m.desc := by
  have hdirs := h.usedDirs
  refine ⟨⟨h.seed, h.pos, h.perGroup, ?_, ?_, ?_, ?_, ?_, ?_⟩, ?_⟩
  · simp only [hr.bitmap, IdBitmap.len_free]
    exact h.bits
  · simp only [hr.desc, hr.blocks]
    exact h.freeBlocks
  · simp only [hr.desc, hr.books hi hset, h.freeInodes]
  · simp only [hr.desc]
    omega
  · simp only [hr.desc]
    exact itableUnused_le _ _
  · simp only [hr.desc]
    exact h.eager
  · rw [hr.desc]
    exact ⟨rfl, rfl, rfl, rfl⟩

end BlockGroup

namespace Fs

open BlockGroup

structure Sealed (seed : UInt32) (fs : Fs) : Prop where
  blockBitmap : ∀ idx < fs.sb.nrBlockGroups, fs.image (fs.groups idx).metadata.desc.blockBitmapBid =
    some (fs.groups idx).metadata.blockBitmap.asBytes
  inodeBitmap : ∀ idx < fs.sb.nrBlockGroups, fs.image (fs.groups idx).metadata.desc.inodeBitmapBid =
    some (fs.groups idx).metadata.inodeBitmap.asBytes
  desc : ∀ idx < fs.sb.nrBlockGroups, ∃ buf, fs.image (fs.groups idx).descBlockBid = some buf ∧
    (fs.groups idx).Stamped seed (fs.groups idx).metadata.blockBitmap.asBytes
      (fs.groups idx).metadata.inodeBitmap.asBytes buf

def Framed (table : Nat → Option Block) (fs : Fs) : Prop :=
  ∀ idx < fs.sb.nrBlockGroups, ∀ buf, fs.image (fs.groups idx).descBlockBid = some buf →
    ∃ old, table (fs.groups idx).descBlockBid = some old ∧ ∀ i,
      (∀ k < fs.sb.nrBlockGroups, (fs.groups k).descBlockBid = (fs.groups idx).descBlockBid →
        ¬(fs.groups k).Owned i) → byteAt buf i = byteAt old i

variable {fs fs' : Fs} {idx : Nat} {m : BlockGroupMetadata} {sb : SuperBlock} {bid : Nat}
  {bitmap : IdBitmap} {seed : UInt32} {table : Nat → Option Block} {F : Set Nat}

theorem Sealed.stroke (hs : fs.Sealed seed) (hw : fs.layout.Wf) (hlive : fs.handle.isSome = true)
    (hold : (fs.groups idx).Orderly seed fs.sb.inodesPerGroup)
    (hnew : Narrow m.desc ∧ Alike (fs.groups idx).metadata.desc m.desc)
    (h : fs.Stroke fs' idx m sb bid bitmap) : fs'.Sealed seed := by
  have hrep := h.republished
  have hidx := h.idx_lt
  have hlayout := h.layout
  have hw' : fs'.layout.Wf := hlayout ▸ hw
  have hstored : ∀ b, b ≠ SuperBlock.superblockBid →
      fs'.image b = (fs.groups idx).publishImage bid bitmap m true fs.image b := by
    intro b hb
    rw [h.image b hb, hlive]
  refine ⟨fun k hk => ?_, fun k hk => ?_, fun k hk => ?_⟩
  · have hne : (fs'.groups k).metadata.desc.blockBitmapBid ≠ SuperBlock.superblockBid :=
      hw'.blockBitmap_ne_sb k hk
    rw [h.nrGroups] at hk
    rw [hstored _ hne, h.groups]
    exact hrep.blockBitmap hw hidx hk (hs.blockBitmap k hk)
  · have hne : (fs'.groups k).metadata.desc.inodeBitmapBid ≠ SuperBlock.superblockBid :=
      hw'.inodeBitmap_ne_sb k hk
    rw [h.nrGroups] at hk
    rw [hstored _ hne, h.groups]
    exact hrep.inodeBitmap hw hidx hk (hs.inodeBitmap k hk)
  · rw [h.nrGroups] at hk
    obtain ⟨buf, hbuf, hstamped⟩ := hs.desc k hk
    have hnewest : fs'.image (fs.groups k).descBlockBid = _ :=
      (hstored _ (hw.desc_ne_sb k hk)).trans (hrep.descBlock hw hidx hk hbuf)
    rcases eq_or_ne k idx with rfl | hne
    · rw [if_pos rfl] at hnewest
      rw [h.self]
      exact ⟨_, hnewest, stamped_patchDesc hold.seed (hw.desc_size k hidx) (hw.desc_fits k hidx)
        hstamped.decoded hold.narrow hnew.1 hnew.2⟩
    · rw [h.other hne]
      refine ⟨_, hnewest, ?_⟩
      split_ifs with hblk
      · have hapart := descs_apart hw hk hidx hne hblk
        obtain ⟨buf', hbuf', hself⟩ := hs.desc idx hidx
        rw [← hblk, hbuf] at hbuf'
        obtain rfl := Option.some.inj hbuf'
        refine hstamped.congr (hw.desc_size k hk) fun i hlo hhi => ?_
        refine byteAt_patchDesc hold.seed hself.decoded hnew.2 fun howned => ?_
        have hinside := howned.inside (hw.desc_size idx hidx)
        unfold descOff at hlo hhi hinside
        omega
      · exact hstamped

theorem Stroke.owned (h : fs.Stroke fs' idx m sb bid bitmap) (k i : Nat) :
    (fs'.groups k).Owned i ↔ (fs.groups k).Owned i := by
  rcases eq_or_ne k idx with rfl | hne
  · rw [h.self]
    rfl
  · rw [h.other hne]

theorem Stroke.descBlockBid (h : fs.Stroke fs' idx m sb bid bitmap) (k : Nat) :
    (fs'.groups k).descBlockBid = (fs.groups k).descBlockBid := by
  rcases eq_or_ne k idx with rfl | hne
  · rw [h.self]
    rfl
  · rw [h.other hne]

theorem Framed.stroke (hf : fs.Framed table) (hs : fs.Sealed seed) (hw : fs.layout.Wf)
    (hlive : fs.handle.isSome = true) (hold : (fs.groups idx).Orderly seed fs.sb.inodesPerGroup)
    (halike : Alike (fs.groups idx).metadata.desc m.desc) (h : fs.Stroke fs' idx m sb bid bitmap) :
    fs'.Framed table := by
  intro k hk buf' hbuf'
  rw [h.nrGroups] at hk
  rw [h.descBlockBid] at hbuf' ⊢
  obtain ⟨buf, hbuf, -⟩ := hs.desc k hk
  obtain ⟨old, hold', hbytes⟩ := hf k hk buf hbuf
  refine ⟨old, hold', fun i hi => ?_⟩
  have hunowned : ∀ j < fs.sb.nrBlockGroups, (fs.groups j).descBlockBid = (fs.groups k).descBlockBid →
      ¬(fs.groups j).Owned i := by
    intro j hj hblk howned
    refine hi j (h.nrGroups ▸ hj) ?_ ((h.owned j i).mpr howned)
    rw [h.descBlockBid]
    exact hblk
  have hstored : fs'.image (fs.groups k).descBlockBid = _ := h.image _ (hw.desc_ne_sb k hk)
  rw [hbuf', hlive, h.republished.descBlock hw h.idx_lt hk hbuf] at hstored
  rw [← hbytes i hunowned, Option.some.inj hstored]
  split_ifs with hblk
  · obtain ⟨self, hself, hstamped⟩ := hs.desc idx h.idx_lt
    rw [← hblk, hbuf] at hself
    obtain rfl := Option.some.inj hself
    exact byteAt_patchDesc hold.seed hstamped.decoded halike (hunowned idx h.idx_lt hblk.symm)
  · rfl

structure Certified (seed : UInt32) (table : Nat → Option Block) (F : Set Nat) (fs : Fs) : Prop where
  ready : fs.Ready
  live : fs.handle.isSome = true
  wf : fs.layout.Wf
  apart : ∀ b ∈ fs.layout.systemBids, b ∉ F
  orderly : ∀ idx < fs.sb.nrBlockGroups, (fs.groups idx).Orderly seed fs.sb.inodesPerGroup
  images : fs.Sealed seed
  framed : fs.Framed table

structure Passes (fs fs' : Fs) : Prop extends Lulls fs fs' where
  live : fs'.handle.isSome = true
  image : ∀ idx < fs.sb.nrBlockGroups, ∀ b ∈ (fs.groups idx).metaBids, fs'.image b = fs.image b

section

variable (hg : fs.Certified seed table F)

include hg

theorem Certified.passes (h : fs.Passes fs') : fs'.Certified seed table F := by
  obtain ⟨⟨hsb, hgroups, hready⟩, hlive, himage⟩ := h
  have hnr : fs'.sb.nrBlockGroups = fs.sb.nrBlockGroups := by rw [hsb]
  have hper : fs'.sb.inodesPerGroup = fs.sb.inodesPerGroup := by rw [hsb]
  refine ⟨hready, hlive, ?_, ?_, ?_, ⟨?_, ?_, ?_⟩, ?_⟩
  · have hw := hg.wf
    unfold Fs.layout at hw ⊢
    rw [hsb, hgroups]
    exact wf_lastOrphan hw
  · have hsame : fs'.layout.systemBids = fs.layout.systemBids := by
      unfold Layout.systemBids Fs.layout
      rw [hsb, hgroups]
      rfl
    rw [hsame]
    exact hg.apart
  · rw [hnr, hper, hgroups]
    exact hg.orderly
  · rw [hnr, hgroups]
    intro k hk
    rw [himage k hk _ (blockBitmapBid_subset _ (Finset.mem_singleton_self _))]
    exact hg.images.blockBitmap k hk
  · rw [hnr, hgroups]
    intro k hk
    rw [himage k hk _ (inodeBitmapBid_subset _ (Finset.mem_singleton_self _))]
    exact hg.images.inodeBitmap k hk
  · rw [hnr, hgroups]
    intro k hk
    rw [himage k hk _ (descBlockBid_mem _)]
    exact hg.images.desc k hk
  · unfold Framed
    rw [hnr, hgroups]
    intro k hk buf hbuf
    rw [himage k hk _ (descBlockBid_mem _)] at hbuf
    exact hg.framed k hk buf hbuf

theorem Certified.stroke (h : fs.Stroke fs' idx m sb bid bitmap)
    (hnew : ({ fs.groups idx with metadata := m } : BlockGroup).Orderly seed fs.sb.inodesPerGroup ∧
      Alike (fs.groups idx).metadata.desc m.desc) : fs'.Certified seed table F where
  ready := h.ready
  live := h.mode.trans hg.live
  wf := h.layout ▸ hg.wf
  apart := by
    rw [h.layout]
    exact hg.apart
  orderly := by
    intro k hk
    rw [h.nrGroups] at hk
    rw [h.inodesPerGroup]
    rcases eq_or_ne k idx with rfl | hne
    · rw [h.self]
      exact hnew.1
    · rw [h.other hne]
      exact hg.orderly k hk
  images := hg.images.stroke hg.wf hg.live (hg.orderly idx h.idx_lt) ⟨hnew.1.narrow, hnew.2⟩ h
  framed := hg.framed.stroke hg.images hg.wf hg.live (hg.orderly idx h.idx_lt) hnew.2 h

theorem Certified.died {ino : Nat} {d : Bool}
    (h : fs.Alters (.died (fs.inoGroup ino) (fs.inoBit ino) d) fs') : fs'.Certified seed table F := by
  obtain ⟨_, m, sb, bid, bitmap, hstroke, hdeed⟩ := h
  cases hdeed with
  | death hset hr _ =>
    have horderly := hg.orderly _ hstroke.idx_lt
    have hbit : fs.inoBit ino < (fs.groups (fs.inoGroup ino)).metadata.inodeBitmap.len := by
      rw [horderly.bits, horderly.perGroup]
      exact Nat.mod_lt _ horderly.pos
    exact hg.stroke hstroke (horderly.death hbit hset hr)

end

theorem certified_upheld (seed : UInt32) (table : Nat → Option Block) (F : Set Nat) :
    Upheld F Passes fun _ fs => fs.Certified seed table F where
  ready hg := hg.ready
  wf hg := hg.wf
  rests hg h := by
    refine hg.passes ⟨⟨by rw [h.sb], h.groups, h.ready⟩, h.mode.trans hg.live, fun k hk b hb => ?_⟩
    exact h.image b (hg.apart b (metaBids_subset hk hb))
  blocks hg h := by
    obtain ⟨idx, m, sb, bid, bitmap, hstroke, hdeed⟩ := h
    have horderly := hg.orderly idx hstroke.idx_lt
    cases hdeed with
    | claim hc _ => exact hg.stroke hstroke (horderly.claim hc)
    | release _ hr _ => exact hg.stroke hstroke (horderly.release hr)
  born hg h _ := by
    obtain ⟨idx, m, sb, bid, bitmap, hstroke, hdeed⟩ := h
    cases hdeed with
    | birth hroom hc _ => exact hg.stroke hstroke ((hg.orderly _ hstroke.idx_lt).birth hroom hc)
  died hg _ h := hg.died h
  turn := Certified.passes

end Fs

theorem descriptor_images_consistent {g : JournalGeometry} {fs₀ fs : Fs} {dirs₀ dirs : Nat → Bool}
    {seed : UInt32} (hopen : fs₀.Ready ∧ fs₀.handle.isSome = true) (hw : fs₀.layout.Wf)
    (horderly : ∀ idx < fs₀.sb.nrBlockGroups, (fs₀.groups idx).Orderly seed fs₀.sb.inodesPerGroup)
    (hsealed : fs₀.Sealed seed) (h : Fs.Served g {b | b ∉ fs₀.layout.systemBids} Fs.Passes dirs₀ fs₀ dirs fs) :
    ∀ idx < fs.sb.nrBlockGroups, ∃ buf blockBits inodeBits old,
      fs.image (fs.groups idx).descBlockBid = some buf ∧
      fs.image (fs.groups idx).metadata.desc.blockBitmapBid = some blockBits ∧
      fs.image (fs.groups idx).metadata.desc.inodeBitmapBid = some inodeBits ∧
      (fs.groups idx).Stamped seed blockBits inodeBits buf ∧
      fs₀.image (fs.groups idx).descBlockBid = some old ∧
      ∀ i, (∀ k < fs.sb.nrBlockGroups, (fs.groups k).descBlockBid = (fs.groups idx).descBlockBid →
        ¬(fs.groups k).Owned i) → byteAt buf i = byteAt old i := by
  have hstart : fs₀.Certified seed fs₀.image {b | b ∉ fs₀.layout.systemBids} :=
    ⟨hopen.1, hopen.2, hw, fun b hb hnot => hnot hb, horderly, hsealed,
      fun idx _ buf hbuf => ⟨buf, hbuf, fun _ _ => rfl⟩⟩
  have hend := h.holds (Fs.certified_upheld seed fs₀.image _) hstart
  intro idx hidx
  obtain ⟨buf, hbuf, hstamped⟩ := hend.images.desc idx hidx
  obtain ⟨old, hold, hbytes⟩ := hend.framed idx hidx buf hbuf
  exact ⟨buf, _, _, old, hbuf, hend.images.blockBitmap idx hidx, hend.images.inodeBitmap idx hidx,
    hstamped, hold, hbytes⟩

namespace Vouched

open BlockGroup BlockGroupDesc

def metadata (flags : UInt16) (bits : Block) : BlockGroupMetadata :=
  { Specimen.crowded.group.metadata with
    desc := { Specimen.crowded.desc with flags := flags }
    blockBitmap := .fromBuf bits 16 Specimen.bits_16 }

def taken : Block := setBits (zeros _) 0 11 true

def group (flags : UInt16) : BlockGroup :=
  { Specimen.crowded.group with
    nrBlocksPerGroup := 16
    csumSeed := some 7
    metadata := metadata flags taken }

def bare (flags : UInt16) : Block :=
  (metadata flags taken).desc.patchInto 4096 (putLE (putLE (putLE (zeros _) 0 4 2) 4 4 3) 8 4 4)

def table (flags : UInt16) (bits : Block) : Block := (group flags).patchDesc (metadata flags bits) (bare flags)

def fs (flags : UInt16) (bits : Block) : Fs :=
  { Specimen.crowded.fs Specimen.wide with
    groups := fun _ => group flags
    device := fun b =>
      if b = 1 then some (table flags bits) else if b = 2 then some bits else Specimen.crowded.device b }

def inodeBits : Block := setBits (zeros _) 0 12 true

theorem bare_decodes {flags : UInt16} (hflags : flags = 0 ∨ flags = 2) :
    fromRaw (bare flags) (group flags).descOff (group flags).wide = (group flags).metadata.desc := by
  rcases hflags with rfl | rfl
  · simp only [fromRaw, group, metadata, BlockGroupDesc.mk.injEq]
    decide +kernel
  · simp only [fromRaw, group, metadata, BlockGroupDesc.mk.injEq]
    decide +kernel

theorem narrow (flags : UInt16) (bits : Block) : Narrow (metadata flags bits).desc :=
  ⟨(by decide : 5 < 256 ^ 2), (by decide : 4 < 256 ^ 2), (by decide : 1 < 256 ^ 2), (by decide : 4 < 256 ^ 2)⟩

theorem stamped {flags : UInt16} (hflags : flags = 0 ∨ flags = 2) (bits : Block) :
    (group flags).Stamped 7 bits inodeBits (table flags bits) := by
  have hsize : 32 ≤ (group flags).descSize := le_refl 32
  have hfits : (group flags).descOff + (group flags).descSize ≤ 4096 := (by decide : 4096 % 4096 + 32 ≤ 4096)
  have hstamped : ({ group flags with metadata := metadata flags bits } : BlockGroup).Stamped 7 bits
      inodeBits (table flags bits) :=
    stamped_patchDesc rfl hsize hfits (bare_decodes hflags) (narrow flags taken) (narrow flags bits)
      ⟨rfl, rfl, rfl, rfl⟩
  exact ⟨hstamped.decoded, hstamped.blockCsum, hstamped.inodeCsum, hstamped.checksum⟩

theorem orderly : (group 0).Orderly 7 16 where
  seed := rfl
  pos := by decide
  perGroup := rfl
  bits := rfl
  freeBlocks := by decide +kernel
  freeInodes := by decide +kernel
  usedDirs := by decide
  unused := by decide
  eager := by decide

theorem images : (fs 0 taken).Sealed 7 where
  blockBitmap _ _ := rfl
  inodeBitmap _ _ := rfl
  desc idx _ := by
    have himage : (fs 0 taken).image 1 = some (table 0 taken) := rfl
    have hbid : ((fs 0 taken).groups idx).descBlockBid = 1 := (by decide : 4096 / 4096 = 1)
    exact ⟨_, hbid ▸ himage, stamped (.inl rfl) taken⟩

theorem wf (flags : UInt16) (bits : Block) : (fs flags bits).layout.Wf := crowded.wf wide

theorem live (flags : UInt16) (bits : Block) : (fs flags bits).Live
    (journalStart (Tid.ofNat 1) crowded.credits) (crowded.journal wide)
      crowded.txn := by
  obtain ⟨hhandle, hjournal, hserves, hcredits⟩ := crowded.live wide
  exact ⟨hhandle, hjournal, hserves, hcredits⟩

end Vouched

theorem descriptor_images_consistent_vouched :
    (Fs.allocIno Specimen.wide 2 .file (Vouched.fs 0 Vouched.taken)).1 = .ok 13 ∧
      ∃ buf blockBits inodeBits,
        (Fs.allocIno Specimen.wide 2 .file (Vouched.fs 0 Vouched.taken)).2.image 1 = some buf ∧
        ((Fs.allocIno Specimen.wide 2 .file (Vouched.fs 0 Vouched.taken)).2.groups 0).Stamped 7
          blockBits inodeBits buf := by
  have hrun : (Fs.allocIno Specimen.wide 2 .file (Vouched.fs 0 Vouched.taken)).1 = .ok 13 := by
    decide +kernel
  have hserved : Fs.Served Specimen.wide {b | b ∉ (Vouched.fs 0 Vouched.taken).layout.systemBids} Fs.Passes
      rootOnly (Vouched.fs 0 Vouched.taken) (Function.update rootOnly 13 InodeType.file.isDirectory) _ :=
    .allocIno .start (Op.run_eq hrun)
  have hnr : (Fs.allocIno Specimen.wide 2 .file (Vouched.fs 0 Vouched.taken)).2.sb.nrBlockGroups = 1 := by
    decide +kernel
  have hbid : ((Fs.allocIno Specimen.wide 2 .file (Vouched.fs 0 Vouched.taken)).2.groups 0).descBlockBid = 1 := by
    decide +kernel
  obtain ⟨buf, blockBits, inodeBits, old, hbuf, -, -, hstamped, -, -⟩ :=
    descriptor_images_consistent ⟨.live (Vouched.live 0 Vouched.taken), rfl⟩ (Vouched.wf 0 Vouched.taken)
      (fun _ _ => Vouched.orderly) Vouched.images hserved 0 (by rw [hnr]; decide)
  rw [hbid] at hbuf
  exact ⟨hrun, buf, blockBits, inodeBits, hbuf, hstamped⟩

-- the group's bitmap block was never written: its blocks in use are a prefix, rebuilt at mount
theorem lazy_group_breaks_seal :
    (Vouched.group 2).metadata.desc.isBlockUninit = true ∧
      (Vouched.fs 2 (zeros _)).image 2 = some (zeros _) ∧
      (∃ buf, (Vouched.fs 2 (zeros _)).image 1 = some buf ∧
        (Vouched.group 2).Stamped 7 (zeros _) Vouched.inodeBits buf) ∧
      (Fs.allocIno Specimen.wide 2 .file (Vouched.fs 2 (zeros _))).1 = .ok 13 ∧
      ((Fs.allocIno Specimen.wide 2 .file (Vouched.fs 2 (zeros _))).2.image 1).map
          (BlockGroupDesc.storedCsum · 24 56 false) ≠
        ((Fs.allocIno Specimen.wide 2 .file (Vouched.fs 2 (zeros _))).2.image 2).map
          fun bits => BlockGroupDesc.keptCsum false (BlockGroupDesc.bitmapChecksum 7 bits 2) := by
  refine ⟨by decide, rfl, ⟨_, rfl, Vouched.stamped (.inr rfl) _⟩, ?_, ?_⟩
  · decide +kernel
  · decide +kernel

end Ext4
