import Ext4.Alloc.FunnelSpec
import Mathlib.Data.Finset.Card

namespace Ext4

open Bytes

inductive InodeType where
  | unknown
  | namedPipe
  | charDevice
  | dir
  | blockDevice
  | file
  | symLink
  | socket
  deriving DecidableEq

def InodeType.isDirectory (t : InodeType) : Bool := t = .dir

inductive GroupBlockAlloc where
  | allocated (range : IdRange)
  | noFit (pinnedInGroup : Bool)
  deriving DecidableEq

namespace IdBitmap

def search (pins : List IdRange) : Nat → Nat → List IdRange → IdBitmap →
    Option IdRange × List IdRange × IdBitmap
  | 0, _, held, bm => (none, held, bm)
  | fuel + 1, requested, held, bm =>
    if requested = 0 then (none, held, bm)
    else match bm.allocConsecutive requested with
      | (some candidate, bm) =>
        if pins.any fun pin => pin.overlaps candidate then
          search pins fuel requested (held ++ [candidate]) bm
        else (some candidate, held, bm)
      | (none, bm) => search pins fuel (requested / 2) held bm

def releaseHeld (res : Option IdRange × List IdRange × IdBitmap) : Option IdRange × IdBitmap :=
  (res.1, res.2.1.foldl freeConsecutive res.2.2)

def searchUnpinned (bm : IdBitmap) (pins : List IdRange) (requested : Nat) :
    Option IdRange × IdBitmap :=
  releaseHeld (search pins (bm.len + requested + 1) requested [] bm)

def clearBits : List Nat → IdBitmap → IdBitmap × Nat
  | [], bm => (bm, 0)
  | bit :: bits, bm =>
    if bm.isAllocated bit then
      match clearBits bits (bm.free bit) with
      | (bm, freed) => (bm, freed + 1)
    else clearBits bits bm

def coveredBy (held : List IdRange) (i : Nat) : Bool := held.any fun r => r.contains i

structure Holds (bm₀ : IdBitmap) (held : List IdRange) (bm : IdBitmap) : Prop where
  len : bm.len = bm₀.len
  le : ∀ r ∈ held, r.stop ≤ bm₀.len
  clear : ∀ i, coveredBy held i = true → bm₀.isAllocated i = false
  bits : ∀ i, bm.isAllocated i = (coveredBy held i || bm₀.isAllocated i)

theorem coveredBy_append (held : List IdRange) (r : IdRange) (i : Nat) :
    coveredBy (held ++ [r]) i = (coveredBy held i || r.contains i) := by
  simp [coveredBy]

variable {bm₀ bm bm' : IdBitmap} {held held' : List IdRange} {pins : List IdRange} {r : IdRange}
  {requested : Nat} {count : Nat}

theorem holds_nil (bm : IdBitmap) : bm.Holds [] bm :=
  ⟨rfl, fun _ h => absurd h List.not_mem_nil, fun i hi => by simp [coveredBy] at hi,
    fun i => by simp [coveredBy]⟩

theorem Holds.hold (hh : bm₀.Holds held bm) (hc : bm.Claims requested r bm') :
    bm₀.Holds (held ++ [r]) bm' where
  len := hc.len.trans hh.len
  le c hmem := by
    rcases List.mem_append.mp hmem with hm | hm
    · exact hh.le c hm
    · obtain rfl := List.mem_singleton.mp hm
      rw [← hh.len]
      exact hc.le
  clear i hi := by
    rw [coveredBy_append, Bool.or_eq_true] at hi
    rcases hi with hi | hi
    · exact hh.clear i hi
    · have hfree := hc.clear i hi
      rw [hh.bits i, Bool.or_eq_false_iff] at hfree
      exact hfree.2
  bits i := by
    rw [hc.bits i, hh.bits i, coveredBy_append]
    cases r.contains i <;> simp

theorem isAllocated_release (hle : ∀ r ∈ held, r.stop ≤ bm.len) (i : Nat) :
    (held.foldl freeConsecutive bm).isAllocated i =
      (!coveredBy held i && bm.isAllocated i) := by
  induction held generalizing bm with
  | nil => simp [coveredBy]
  | cons r held ih =>
    rw [List.foldl_cons, ih fun c hc => by
        rw [len_freeConsecutive]
        exact hle c (List.mem_cons_of_mem r hc),
      bm.isAllocated_freeConsecutive (hle r List.mem_cons_self)]
    simp only [coveredBy, List.any_cons]
    cases r.contains i <;> simp

theorem len_release (held : List IdRange) (bm : IdBitmap) :
    (held.foldl freeConsecutive bm).len = bm.len := by
  induction held generalizing bm with
  | nil => rfl
  | cons r held ih => rw [List.foldl_cons, ih, len_freeConsecutive]

theorem Holds.release (hh : bm₀.Holds held bm) : held.foldl freeConsecutive bm = bm₀ := by
  apply ext_isAllocated
  · rw [len_release, hh.len]
  · intro i
    rw [isAllocated_release (fun r hr => by rw [hh.len]; exact hh.le r hr), hh.bits i]
    cases hi : coveredBy held i with
    | true => rw [hh.clear i hi]; rfl
    | false => rfl

structure Takes (bm₀ : IdBitmap) (pins : List IdRange) (count : Nat) (r : IdRange) (bm : IdBitmap) :
    Prop where
  pos : r.start < r.stop
  len_le : r.len ≤ count
  le : r.stop ≤ bm₀.len
  clear : ∀ i, r.contains i = true → bm₀.isAllocated i = false
  unpinned : ∀ pin ∈ pins, pin.overlaps r = false
  len : bm.len = bm₀.len
  bits : ∀ i, bm.isAllocated i = if r.contains i then true else bm₀.isAllocated i

theorem Takes.free (ht : bm₀.Takes pins count r bm) : bm.freeConsecutive r = bm₀ := by
  apply ext_isAllocated
  · rw [len_freeConsecutive, ht.len]
  · intro i
    rw [bm.isAllocated_freeConsecutive (by rw [ht.len]; exact ht.le), ht.bits i]
    split_ifs with hi
    · exact (ht.clear i hi).symm
    · rfl

def SearchSpec (bm₀ : IdBitmap) (pins : List IdRange) (count : Nat) :
    Option IdRange × IdBitmap → Prop
  | (none, bm) => bm = bm₀
  | (some r, bm) => bm₀.Takes pins count r bm

theorem Holds.take (hh : bm₀.Holds held bm) (hc : bm.Claims requested r bm')
    (hpins : (pins.any fun pin => pin.overlaps r) = false) (hle : requested ≤ count) :
    bm₀.Takes pins count r (held.foldl freeConsecutive bm') := by
  have hpos := hc.count_pos
  have hstop := hc.stop
  have hfree : ∀ i, r.contains i = true → coveredBy held i = false ∧ bm₀.isAllocated i = false :=
    fun i hi => by
      have hclear := hc.clear i hi
      rwa [hh.bits i, Bool.or_eq_false_iff] at hclear
  refine ⟨by omega, ?_, ?_, fun i hi => (hfree i hi).2, fun pin hpin => ?_, ?_, fun i => ?_⟩
  · unfold IdRange.len
    omega
  · rw [← hh.len]
    exact hc.le
  · have hall := List.any_eq_false.mp hpins pin hpin
    simpa using hall
  · rw [len_release, hc.len, hh.len]
  · rw [isAllocated_release (fun c hm => by rw [hc.len, hh.len]; exact hh.le c hm), hc.bits i,
      hh.bits i]
    split_ifs with hi
    · rw [(hfree i hi).1]
      rfl
    · cases hcov : coveredBy held i with
      | true => rw [hh.clear i hcov]; rfl
      | false => rfl

theorem search_spec (fuel : Nat) (hh : bm₀.Holds held bm) (hle : requested ≤ count) :
    bm₀.SearchSpec pins count (releaseHeld (search pins fuel requested held bm)) := by
  induction fuel generalizing requested held bm with
  | zero => exact hh.release
  | succ fuel ih =>
    unfold search
    by_cases h0 : requested = 0
    · rw [if_pos h0]
      exact hh.release
    · rw [if_neg h0]
      cases halloc : bm.allocConsecutive requested with
      | mk res bm' =>
        cases res with
        | none =>
          obtain rfl := allocConsecutive_none halloc
          exact ih hh (by omega)
        | some candidate =>
          have hc := allocConsecutive_some halloc
          simp only
          cases hpins : pins.any fun pin => pin.overlaps candidate with
          | true => exact ih (hh.hold hc) hle
          | false => exact hh.take hc hpins hle

theorem searchUnpinned_spec (bm : IdBitmap) (pins : List IdRange) (requested : Nat) :
    bm.SearchSpec pins requested (bm.searchUnpinned pins requested) :=
  search_spec _ (holds_nil bm) le_rfl

def freeIds (bm : IdBitmap) : Finset Nat :=
  (Finset.range bm.len).filter fun i => bm.isAllocated i = false

theorem Claims.freeIds_lt (hc : bm.Claims requested r bm') : bm'.freeIds.card < bm.freeIds.card := by
  have hstop := hc.stop
  have hpos := hc.count_pos
  have hle := hc.le
  have hstart : r.contains r.start = true := IdRange.contains_iff.mpr ⟨le_rfl, by omega⟩
  apply Finset.card_lt_card
  refine Finset.ssubset_iff_subset_ne.mpr ⟨fun i hi => ?_, fun heq => ?_⟩
  · obtain ⟨hlt, hfree⟩ := Finset.mem_filter.mp hi
    rw [hc.bits i] at hfree
    rw [hc.len] at hlt
    split_ifs at hfree
    exact Finset.mem_filter.mpr ⟨hlt, hfree⟩
  · have hmem : r.start ∈ bm.freeIds :=
      Finset.mem_filter.mpr ⟨Finset.mem_range.mpr (by omega), hc.clear _ hstart⟩
    rw [← heq] at hmem
    have hfree := (Finset.mem_filter.mp hmem).2
    rw [hc.bits, if_pos hstart] at hfree
    cases hfree

theorem freeIds_card_le (bm : IdBitmap) : bm.freeIds.card ≤ bm.len :=
  (Finset.card_filter_le _ _).trans (by simp)

theorem freeIds_free {bit : Nat} (hlt : bit < bm.len) :
    (bm.free bit).freeIds = insert bit bm.freeIds := by
  ext i
  simp only [freeIds, Finset.mem_insert, Finset.mem_filter, Finset.mem_range, bm.isAllocated_free hlt]
  change i < bm.len ∧ _ ↔ _
  by_cases hi : i = bit
  · simp [hi, hlt]
  · simp [hi]

theorem clearBits_spec (bits : List Nat) (hle : ∀ i ∈ bits, i < bm.len) :
    (clearBits bits bm).1.len = bm.len ∧
      (∀ i, (clearBits bits bm).1.isAllocated i = if i ∈ bits then false else bm.isAllocated i) ∧
      (clearBits bits bm).1.freeIds.card = bm.freeIds.card + (clearBits bits bm).2 := by
  induction bits generalizing bm with
  | nil => simp [clearBits]
  | cons bit bits ih =>
    obtain ⟨hbit, htail⟩ := List.forall_mem_cons.mp hle
    unfold clearBits
    by_cases hset : bm.isAllocated bit = true
    · rw [if_pos hset]
      have htail' : ∀ i ∈ bits, i < (bm.free bit).len := htail
      obtain ⟨hlen, hbits, hrest⟩ := ih htail'
      refine ⟨hlen, fun i => ?_, ?_⟩
      · rw [hbits i, bm.isAllocated_free hbit]
        by_cases hi : i = bit <;> simp [hi]
      · have hnot : bit ∉ bm.freeIds := fun hmem => by
          rw [(Finset.mem_filter.mp hmem).2] at hset
          cases hset
        rw [freeIds_free hbit, Finset.card_insert_of_notMem hnot] at hrest
        simp only
        omega
    · rw [if_neg hset]
      obtain ⟨hlen, hbits, hrest⟩ := ih htail
      refine ⟨hlen, fun i => ?_, hrest⟩
      rw [hbits i]
      by_cases hi : i = bit
      · simp only [hi, List.mem_cons, true_or, if_true]
        split_ifs
        · rfl
        · exact Bool.eq_false_iff.mpr hset
      · simp [hi]

end IdBitmap

namespace BlockGroup

def pinnedBits (group : BlockGroup) (pinnedFrees : List (Nat × Nat)) : List IdRange :=
  pinnedFrees.filterMap fun run =>
    let lo := max run.1 group.firstBlock
    let hi := min (run.1 + run.2) (group.lastBlock + 1)
    if lo < hi then some ⟨lo - group.firstBlock, hi - group.firstBlock⟩ else none

def requestedCount (group : BlockGroup) (count sbFreeBlocks : Nat) : Nat :=
  min (min (min count group.groupSize) group.metadata.desc.freeBlocksCount)
    (min sbFreeBlocks (2 ^ 32 - 1))

theorem search_cases (group : BlockGroup) (count sbFreeBlocks : Nat) (pinnedFrees : List (Nat × Nat)) :
    let result := group.metadata.blockBitmap.searchUnpinned (group.pinnedBits pinnedFrees)
      (group.requestedCount count sbFreeBlocks)
    result = (none, group.metadata.blockBitmap) ∨ ∃ range bitmap, result = (some range, bitmap) ∧
      group.metadata.blockBitmap.Takes (group.pinnedBits pinnedFrees) (group.requestedCount count sbFreeBlocks)
        range bitmap := by
  have hspec := group.metadata.blockBitmap.searchUnpinned_spec (group.pinnedBits pinnedFrees)
    (group.requestedCount count sbFreeBlocks)
  intro result
  rcases hresult : result with ⟨_ | range, bitmap⟩
  all_goals rw [show IdBitmap.searchUnpinned _ _ _ = _ from hresult] at hspec
  · exact .inl (congrArg (Prod.mk none) hspec)
  · exact .inr ⟨range, bitmap, rfl, hspec⟩

def bitmapCorrupted : Fault := .error .eio "block bitmap corruption detected"

def publish (g : JournalGeometry) (group : BlockGroup) (bitmapAccess : WriteAccess)
    (bitmap : IdBitmap) (metadata : BlockGroupMetadata) : FsOp Unit := do
  Fs.patch bitmapAccess fun _ => bitmap.asBytes
  Fs.capturePatch g group.descBlockBid (group.patchDesc metadata)

def allocBlocks (g : JournalGeometry) (idx count sbFreeBlocks : Nat)
    (pinnedFrees : List (Nat × Nat)) : FsOp GroupBlockAlloc := do
  let fs ← Op.get
  let group := fs.groups idx
  let metadata := group.metadata
  let pinned := group.pinnedBits pinnedFrees
  let bitmapAccess ← Fs.getWriteAccess g metadata.desc.blockBitmapBid
  match metadata.blockBitmap.searchUnpinned pinned (group.requestedCount count sbFreeBlocks) with
  | (none, bitmap) =>
    Op.modify fun fs => fs.setMetadata idx { metadata with blockBitmap := bitmap }
    if 0 < metadata.desc.freeBlocksCount ∧ pinned.isEmpty then Op.fail bitmapCorrupted
    else Op.ret (.noFit !pinned.isEmpty)
  | (some range, bitmap) =>
    let absRange : IdRange := ⟨group.firstBlock + range.start, group.firstBlock + range.stop⟩
    if group.overlapsSystemZoneWith metadata.desc absRange ∨
        metadata.desc.freeBlocksCount < range.len ∨ sbFreeBlocks < range.len then
      Op.modify fun fs => fs.setMetadata idx
        { metadata with blockBitmap := bitmap.freeConsecutive range }
      Op.fail bitmapCorrupted
    else
      let desc := { metadata.desc with
        freeBlocksCount := metadata.desc.freeBlocksCount - range.len }.clearBlockUninit
      let metadata : BlockGroupMetadata := { metadata with desc := desc, blockBitmap := bitmap }
      Op.modify fun fs => fs.setMetadata idx metadata
      publish g group bitmapAccess bitmap metadata
      Op.ret (.allocated absRange)

def freeBlocks (g : JournalGeometry) (idx startBit count : Nat) : FsOp Nat := do
  let fs ← Op.get
  let group := fs.groups idx
  let metadata := group.metadata
  let absRange : IdRange := ⟨group.firstBlock + startBit, group.firstBlock + startBit + count⟩
  if group.overlapsSystemZoneWith metadata.desc absRange then
    Fs.abortJournalOnFsError
    Op.fail (.error .eio "freeing blocks in system zone")
  else
    let bitmapAccess ← Fs.getWriteAccess g metadata.desc.blockBitmapBid
    match IdBitmap.clearBits (List.range' startBit count) metadata.blockBitmap with
    | (bitmap, freed) =>
      Op.modify fun fs => fs.setMetadata idx { metadata with blockBitmap := bitmap }
      if 2 ^ 32 ≤ metadata.desc.freeBlocksCount + freed then
        Op.fail (.error .eio "free block count overflow in group")
      else
        let metadata : BlockGroupMetadata := { metadata with
          desc := { metadata.desc with
            freeBlocksCount := metadata.desc.freeBlocksCount + freed }
          blockBitmap := bitmap }
        Op.modify fun fs => fs.setMetadata idx metadata
        publish g group bitmapAccess bitmap metadata
        Op.ret freed

def allocIno (g : JournalGeometry) (idx : Nat) (type : InodeType) : FsOp (Option Nat) := do
  let fs ← Op.get
  let group := fs.groups idx
  let metadata := group.metadata
  if metadata.desc.freeInodesCount = 0 then Op.ret none
  else if metadata.desc.isInodeUninit then Op.ret none
  else if type.isDirectory ∧ metadata.desc.usedDirsCount = 2 ^ 16 - 1 then
    Op.fail (.error .eio "group used directory counter overflow")
  else
    let bitmapAccess ← Fs.getWriteAccess g metadata.desc.inodeBitmapBid
    match metadata.inodeBitmap.allocConsecutive 1 with
    | (none, bitmap) =>
      Op.modify fun fs => fs.setMetadata idx { metadata with inodeBitmap := bitmap }
      Op.fail (.error .eio "inode bitmap corruption detected")
    | (some range, bitmap) =>
      let metadata : BlockGroupMetadata := { metadata with
        desc := { metadata.desc with
          freeInodesCount := metadata.desc.freeInodesCount - 1
          usedDirsCount := metadata.desc.usedDirsCount + if type.isDirectory then 1 else 0
          itableUnused := itableUnusedFromBitmap bitmap group.nrInodesPerGroup }
        inodeBitmap := bitmap }
      Op.modify fun fs => fs.setMetadata idx metadata
      publish g group bitmapAccess bitmap metadata
      Op.ret (some range.start)

def freeInode (g : JournalGeometry) (idx localIdx : Nat) (type : InodeType) : FsOp Bool := do
  let fs ← Op.get
  let group := fs.groups idx
  let metadata := group.metadata
  if metadata.inodeBitmap.isAllocated localIdx = false then Op.ret false
  else
    let bitmapAccess ← Fs.getWriteAccess g metadata.desc.inodeBitmapBid
    if 2 ^ 32 ≤ metadata.desc.freeInodesCount + 1 then
      Op.fail (.error .eio "free inode count overflow in group")
    else if type.isDirectory ∧ metadata.desc.usedDirsCount = 0 then
      Op.fail (.error .eio "used directory counter underflow in group")
    else
      let bitmap := metadata.inodeBitmap.free localIdx
      let metadata : BlockGroupMetadata := { metadata with
        desc := { metadata.desc with
          freeInodesCount := metadata.desc.freeInodesCount + 1
          usedDirsCount := metadata.desc.usedDirsCount - if type.isDirectory then 1 else 0
          itableUnused := itableUnusedFromBitmap bitmap group.nrInodesPerGroup }
        inodeBitmap := bitmap }
      Op.modify fun fs => fs.setMetadata idx metadata
      publish g group bitmapAccess bitmap metadata
      Op.ret true

end BlockGroup

end Ext4
