import Ext4.Alloc.Specimen
import Ext4.Base.Frame
import Mathlib.Algebra.Order.BigOperators.Group.Finset

namespace Ext4

open Op Finset Specimen

variable {i b : Nat}

def captureFaults : List Fault :=
  [journalDropped, outlived,
    .error .enospc "operation captured more metadata than a single journal transaction holds",
    .error .eio "failed to read metadata block for journaling",
    .error .eio "dirty_metadata without prior get_*_access",
    .error .eio "stale write access: the block was re-captured since the credential was minted"]

namespace JournalState

variable {g : JournalGeometry} {h : Handle} {st : JournalState} {generation bid : Nat} {e : Fault}

theorem settleCapture_fault {fresh : Bool} {txn : Transaction}
    (he : (settleCapture g h st fresh generation txn).1 = .error e) : e ∈ captureFaults := by
  cases fresh with
  | false => cases he
  | true =>
    have hcharge : (chargeFreshCapture g h txn).1 = .error e := by
      cases hc : (chargeFreshCapture g h txn).1 with
      | ok u =>
        simp [settleCapture, hc, Except.map] at he
      | error e' =>
        simp only [settleCapture, hc, Except.map, if_true] at he
        cases he
        rfl
    unfold chargeFreshCapture at hcharge
    simp only at hcharge
    split at hcharge
    · split at hcharge
      · cases hcharge
      · split at hcharge
        · cases hcharge
        · cases hcharge
          simp [captureFaults]
    · cases hcharge

theorem getWriteAccess_fault {device : Option Block} (he : (st.getWriteAccess g h bid device).1 = .error e) :
    e ∈ captureFaults := by
  unfold getWriteAccess at he
  split at he
  · cases he
    simp [captureFaults]
  · split at he
    · rename_i hcap
      unfold Transaction.captureWrite at hcap
      simp only at hcap
      split at hcap
      · cases hcap
      · split at hcap
        · cases hcap
        · cases hcap
          cases he
          simp [captureFaults]
    · exact settleCapture_fault he

theorem patch_fault {tid : Tid} {f : Block → Block}
    (he : st.patch tid bid generation f = .error e) : e ∈ captureFaults := by
  unfold patch at he
  split at he
  · cases he
    simp [captureFaults]
  · rename_i txn _
    cases happ : txn.applyPatch bid generation f with
    | ok txn' =>
      rw [happ] at he
      cases he
    | error e' =>
      rw [happ] at he
      cases he
      unfold Transaction.applyPatch at happ
      split at happ
      · cases happ
        simp [captureFaults]
      · split at happ
        · cases happ
        · cases happ
          simp [captureFaults]

end JournalState

namespace Fs

variable {P : Fault → Prop}

structure Idles (fs fs' : Fs) : Prop where
  sb : fs'.sb = fs.sb
  groups : fs'.groups = fs.groups

instance : IsPreorder Fs Idles where
  refl _ := ⟨rfl, rfl⟩
  trans _ _ _ h₁ h₂ := ⟨h₂.sb.trans h₁.sb, h₂.groups.trans h₁.groups⟩

theorem Idles.setMetadata {fs fs1 fs2 : Fs} {idx : Nat} {m : BlockGroupMetadata} (h1 : fs.Idles fs1)
    (h2 : (fs1.setMetadata idx m).Idles fs2) : (fs.setMetadata idx m).Idles fs2 := by
  refine ⟨h2.sb.trans h1.sb, h2.groups.trans ?_⟩
  simp only [Fs.setMetadata, h1.groups]

variable {α : Type} (g : JournalGeometry)

theorem underHandle_idles (inert : α) (f : Handle → JournalState → Except Fault α × Handle × JournalState) :
    Keeps Idles (underHandle inert f) := by
  intro fs
  unfold underHandle
  split <;> exact ⟨rfl, rfl⟩

theorem underHandle_raises (inert : α) {f : Handle → JournalState → Except Fault α × Handle × JournalState}
    (hdropped : P journalDropped)
    (hf : ∀ h st e, (f h st).1 = .error e → P e) : Raises P (underHandle inert f) := by
  intro fs
  refine .intro (fun _ _ _ => trivial) fun e fs' hrun => ?_
  unfold underHandle at hrun
  split at hrun
  · cases hrun
  · cases hrun
    exact hdropped
  · exact hf _ _ e (congrArg Prod.fst hrun)

theorem keepOnError_raises {f : Handle → JournalState → Except Fault JournalState} (hdropped : P journalDropped)
    (hf : ∀ h st e, f h st = .error e → P e) :
    Raises P (underHandle () fun h st => keepOnError h st (f h st)) := by
  refine underHandle_raises () hdropped fun h st e he => ?_
  cases hres : f h st with
  | ok st' =>
    rw [hres] at he
    cases he
  | error err =>
    rw [hres] at he
    cases he
    exact hf h st _ hres

theorem map_error {r : Except Fault Nat} {f : Nat → α} {e : Fault} (h : r.map f = .error e) : r = .error e := by
  cases r with
  | ok a => cases h
  | error e' =>
    cases h
    rfl

theorem getWriteAccess_idles (bid : Nat) : Keeps Idles (getWriteAccess g bid) := fun fs =>
  underHandle_idles _ _ fs

theorem getWriteAccess_raises (bid : Nat) : Raises (· ∈ captureFaults) (getWriteAccess g bid) := fun fs =>
  underHandle_raises (P := (· ∈ captureFaults)) _ (by simp [captureFaults])
    (fun _ _ _ he => JournalState.getWriteAccess_fault (map_error he)) fs

theorem patch_idles (access : WriteAccess) (f : Block → Block) : Keeps Idles (patch access f) := by
  unfold patch
  split
  · exact .ret ()
  · exact underHandle_idles _ _

theorem patch_raises (access : WriteAccess) (f : Block → Block) :
    Raises (· ∈ captureFaults) (patch access f) := by
  unfold patch
  split
  · exact .ret ()
  · exact keepOnError_raises (P := (· ∈ captureFaults)) (by simp [captureFaults])
      fun _ _ _ he => JournalState.patch_fault he

theorem capturePatch_idles (bid : Nat) (f : Block → Block) : Keeps Idles (capturePatch g bid f) :=
  .bind (getWriteAccess_idles g bid) fun access => patch_idles access f

theorem capturePatch_raises (bid : Nat) (f : Block → Block) :
    Raises (· ∈ captureFaults) (capturePatch g bid f) :=
  .bind (getWriteAccess_raises g bid) fun access => patch_raises access f

end Fs

namespace IdBitmap

variable {bm0 bm bm' : IdBitmap} {held pins : List IdRange} {requested : Nat}

theorem candidate_one (bm : IdBitmap) :
    bm.candidate 1 = ⟨bm.firstAvailableId, bm.firstAvailableId + 1⟩ := by
  unfold candidate
  cases bm.len with
  | zero => rfl
  | succ n =>
    rw [scan, if_neg]
    simp [IdRange.len]

theorem allocConsecutive_one_none (h : bm.allocConsecutive 1 = (none, bm')) :
    ∀ i < bm.len, bm.isAllocated i = true := by
  intro i hi
  apply bm.used_below
  by_contra hge
  have hlen : ¬(bm.candidate 1).len < 1 := by simp [candidate_one, IdRange.len]
  rw [allocConsecutive, dif_neg (by decide), dif_pos (by omega), dif_neg hlen] at h
  cases h

theorem search_exhausts {count fuel : Nat} (hh : bm0.Holds held bm) (hpos : 0 < requested)
    (hle : requested ≤ count) (hfuel : requested + bm.freeIds.card < fuel)
    (hheld : ∀ r ∈ held, r.len ≤ count ∧ ∃ pin ∈ pins, pin.overlaps r = true)
    (hnone : (search pins fuel requested held bm).1 = none) :
    ∀ i < bm0.len, bm0.isAllocated i = false →
      ∃ r : IdRange, r.contains i = true ∧ r.len ≤ count ∧ ∃ pin ∈ pins, pin.overlaps r = true := by
  induction fuel generalizing requested held bm with
  | zero => omega
  | succ fuel ih =>
    rw [search, if_neg (by omega)] at hnone
    cases halloc : bm.allocConsecutive requested with
    | mk res bm' =>
      rw [halloc] at hnone
      cases res with
      | none =>
        obtain rfl := allocConsecutive_none halloc
        rcases lt_or_ge requested 2 with hone | hmore
        · obtain rfl : requested = 1 := by omega
          intro i hi hclear
          have hset := allocConsecutive_one_none halloc i (by rw [hh.len]; exact hi)
          rw [hh.bits, hclear, Bool.or_false] at hset
          obtain ⟨r, hr, hcontains⟩ := List.any_eq_true.mp hset
          exact ⟨r, hcontains, hheld r hr⟩
        · exact ih hh (by omega) (by omega) (by omega) hheld hnone
      | some candidate =>
        have hc := allocConsecutive_some halloc
        have hlt := hc.freeIds_lt
        simp only at hnone
        cases hpins : pins.any fun pin => pin.overlaps candidate with
        | false =>
          rw [hpins] at hnone
          cases hnone
        | true =>
          rw [hpins, if_pos rfl] at hnone
          refine ih (hh.hold hc) hpos hle (by omega) (fun r hr => ?_) hnone
          rcases List.mem_append.mp hr with hr | hr
          · exact hheld r hr
          · obtain rfl := List.mem_singleton.mp hr
            have hstop := hc.stop
            refine ⟨?_, List.any_eq_true.mp hpins⟩
            unfold IdRange.len
            omega

theorem searchUnpinned_exhausts (hpos : 0 < requested) (hnone : (bm.searchUnpinned pins requested).1 = none)
    (hi : i < bm.len) (hclear : bm.isAllocated i = false) :
    ∃ r : IdRange, r.contains i = true ∧ r.len ≤ requested ∧ ∃ pin ∈ pins, pin.overlaps r = true :=
  search_exhausts (holds_nil bm) hpos le_rfl
    (by have := bm.freeIds_card_le; omega) (fun _ h => absurd h List.not_mem_nil) hnone i hi hclear

end IdBitmap

namespace BlockGroup

open Fs

variable (g : JournalGeometry) {r : IdRange} {group : BlockGroup}

section

variable (group : BlockGroup) (access : WriteAccess) (bitmap : IdBitmap) (metadata : BlockGroupMetadata)

theorem publish_idles : Keeps Idles (publish g group access bitmap metadata) :=
  .bind (patch_idles access _) fun _ => capturePatch_idles g _ _

theorem publish_raises :
    Raises (· ∈ captureFaults) (publish g group access bitmap metadata) :=
  .bind (patch_raises access _) fun _ => capturePatch_raises g _ _

end

def found (group : BlockGroup) (count sbFreeBlocks : Nat) (pinnedFrees : List (Nat × Nat)) :
    Option IdRange :=
  (group.metadata.blockBitmap.searchUnpinned (group.pinnedBits pinnedFrees)
    (group.requestedCount count sbFreeBlocks)).1

def Settled (fs : Fs) (idx count sbFreeBlocks : Nat) (pinnedFrees : List (Nat × Nat)) (fs' : Fs) :
    GroupBlockAlloc → Prop
  | .noFit pinnedInGroup => fs.Idles fs' ∧
    (fs.groups idx).found count sbFreeBlocks pinnedFrees = none ∧
      pinnedInGroup = !((fs.groups idx).pinnedBits pinnedFrees).isEmpty
  | .allocated r => ∃ metadata, (fs.groups idx).Claimed count sbFreeBlocks pinnedFrees r metadata ∧
      (fs.setMetadata idx metadata).Idles fs' ∧
        ((fs.groups idx).found count sbFreeBlocks pinnedFrees).isSome

def Suspect (group : BlockGroup) (count sbFreeBlocks : Nat) (pinnedFrees : List (Nat × Nat)) : Prop :=
  match group.found count sbFreeBlocks pinnedFrees with
  | none => 0 < group.metadata.desc.freeBlocksCount ∧ group.pinnedBits pinnedFrees = []
  | some r => group.overlapsSystemZoneWith group.metadata.desc
      ⟨group.firstBlock + r.start, group.firstBlock + r.stop⟩ = true

def Touched (fs : Fs) (idx count sbFreeBlocks : Nat) (pinnedFrees : List (Nat × Nat)) (fs' : Fs) : Prop :=
  fs.Idles fs' ∨ ∃ r metadata, (fs.groups idx).Claimed count sbFreeBlocks pinnedFrees r metadata ∧
    (fs.setMetadata idx metadata).Idles fs'

theorem allocBlocks_settles (fs : Fs) (idx count sbFreeBlocks : Nat) (pinnedFrees : List (Nat × Nat)) :
    (allocBlocks g idx count sbFreeBlocks pinnedFrees).Ends fs
      (fun res fs' => Settled fs idx count sbFreeBlocks pinnedFrees fs' res)
      fun e fs' => Touched fs idx count sbFreeBlocks pinnedFrees fs' ∧ (e ∈ captureFaults ∨
        e = bitmapCorrupted ∧ (fs.groups idx).Suspect count sbFreeBlocks pinnedFrees) := by
  refine .bind_get ?_
  refine (((getWriteAccess_idles g _).ends fs).and (getWriteAccess_raises g _ fs)).mono
    (fun _ _ h => h.1) (fun _ _ h => ⟨.inl h.1, .inl h.2⟩) |>.bind fun access fs1 h1 => ?_
  have hidle : fs.Idles (fs1.setMetadata idx (fs.groups idx).metadata) := by
    refine ⟨h1.sb, ?_⟩
    rw [← h1.groups, setMetadata_self]
  have hfound : (fs.groups idx).found count sbFreeBlocks pinnedFrees = Prod.fst _ := rfl
  rcases (fs.groups idx).search_cases count sbFreeBlocks pinnedFrees with hs | ⟨range, bitmap, hs, htakes⟩
  all_goals rw [hs] at hfound ⊢
  · refine .bind_modify ?_
    split_ifs with hfree
    · refine .fail ⟨.inl hidle, .inr ⟨rfl, ?_⟩⟩
      rw [Suspect, hfound]
      exact ⟨hfree.1, List.isEmpty_iff.mp hfree.2⟩
    · exact .ret ⟨hidle, hfound, rfl⟩
  · have hlen := htakes.len_le
    dsimp only
    split_ifs with hbad
    · refine .bind_modify (.fail ⟨.inl ?_, .inr ⟨rfl, ?_⟩⟩)
      · rw [show bitmap.freeConsecutive range = _ from htakes.free]
        exact hidle
      · rw [Suspect, hfound]
        rcases hbad with hzone | hless | hless
        · exact hzone
        · unfold requestedCount at hlen
          omega
        · unfold requestedCount at hlen
          omega
    · have hc := claimed_of_takes htakes
        ((min_le_left _ _).trans ((min_le_left _ _).trans (min_le_left _ _))) hbad rfl
      refine .bind_modify ?_
      refine (((publish_idles g _ access bitmap _).ends _).and (publish_raises g _ access bitmap _ _)).mono
        (fun _ _ h => h1.setMetadata h.1) (fun _ _ h => ⟨.inr ⟨_, _, hc, h1.setMetadata h.1⟩, .inl h.2⟩) |>.bind
          fun _ fs2 h2 => .ret ⟨_, hc, h2, ?_⟩
      rw [hfound]
      rfl

theorem rangesOverlap_iff {a b : IdRange} :
    rangesOverlap a b = true ↔ ∃ i, a.contains i = true ∧ b.contains i = true := by
  constructor
  · intro h
    simp only [rangesOverlap, Bool.and_eq_true, decide_eq_true_eq] at h
    exact ⟨max a.start b.start, IdRange.contains_iff.mpr (by omega), IdRange.contains_iff.mpr (by omega)⟩
  · rintro ⟨i, ha, hb⟩
    rw [IdRange.contains_iff] at ha hb
    simp only [rangesOverlap, Bool.and_eq_true, decide_eq_true_eq]
    omega

def InZone (group : BlockGroup) (b : Nat) : Prop :=
  b = group.metadata.desc.blockBitmapBid ∨ b = group.metadata.desc.inodeBitmapBid ∨
    group.metadata.desc.inodeTableBid ≤ b ∧
      b < group.metadata.desc.inodeTableBid + group.nrInodeTableBlocksPerGroup

instance (group : BlockGroup) (b : Nat) : Decidable (group.InZone b) :=
  inferInstanceAs (Decidable (_ ∨ _ ∨ _))

theorem overlapsSystemZone_iff :
    group.overlapsSystemZoneWith group.metadata.desc r = true ↔
      ∃ b, r.contains b = true ∧ group.InZone b := by
  simp only [overlapsSystemZoneWith, Bool.or_eq_true, rangesOverlap_iff, IdRange.contains_iff, InZone]
  constructor
  · rintro ((⟨b, hr, hb⟩ | ⟨b, hr, hb⟩) | ⟨b, hr, hb⟩)
    · exact ⟨b, hr, .inl (by omega)⟩
    · exact ⟨b, hr, .inr (.inl (by omega))⟩
    · exact ⟨b, hr, .inr (.inr hb)⟩
  · rintro ⟨b, hr, hb | hb | hb⟩
    · exact .inl (.inl ⟨b, hr, by omega⟩)
    · exact .inl (.inr ⟨b, hr, by omega⟩)
    · exact .inr ⟨b, hr, hb⟩

theorem Claimed.spares {count sbFreeBlocks : Nat} {pinnedFrees : List (Nat × Nat)} {metadata : BlockGroupMetadata}
    (hc : group.Claimed count sbFreeBlocks pinnedFrees r metadata) (hb : r.contains b = true) :
    ¬group.InZone b := by
  intro hzone
  have hoverlap := overlapsSystemZone_iff.mpr ⟨b, hb, hzone⟩
  rw [hc.zone] at hoverlap
  cases hoverlap

end BlockGroup

section GroupAllocation

variable {g : JournalGeometry} {fs fs' : Fs} {idx count sbFreeBlocks : Nat}
  {pinnedFrees : List (Nat × Nat)} {res : GroupBlockAlloc}

theorem group_allocation_safe (hle : (fs.groups idx).firstBlock ≤ (fs.groups idx).lastBlock)
    (hbits : (fs.groups idx).metadata.blockBitmap.len = (fs.groups idx).groupSize)
    (h : BlockGroup.allocBlocks g idx count sbFreeBlocks pinnedFrees fs = (.ok res, fs')) :
    match res with
    | .allocated r =>
      r.start < r.stop ∧ r.len ≤ count ∧
        (fs.groups idx).firstBlock ≤ r.start ∧ r.stop ≤ (fs.groups idx).lastBlock + 1 ∧
        (∀ b, r.contains b = true → ¬(fs.groups idx).InZone b ∧
          (∀ run ∈ pinnedFrees, ¬(run.1 ≤ b ∧ b < run.1 + run.2)) ∧
          (fs.groups idx).metadata.blockBitmap.isAllocated (b - (fs.groups idx).firstBlock) = false ∧
          (fs'.groups idx).metadata.blockBitmap.isAllocated (b - (fs.groups idx).firstBlock) = true) ∧
        (∀ i, r.contains ((fs.groups idx).firstBlock + i) = false →
          (fs'.groups idx).metadata.blockBitmap.isAllocated i =
            (fs.groups idx).metadata.blockBitmap.isAllocated i) ∧
        (fs'.groups idx).metadata.desc.freeBlocksCount + r.len =
          (fs.groups idx).metadata.desc.freeBlocksCount
    | .noFit _ => (fs'.groups idx).metadata = (fs.groups idx).metadata := by
  have hsettled := (BlockGroup.allocBlocks_settles g fs idx count sbFreeBlocks pinnedFrees).of_ok h
  cases res with
  | noFit pinnedInGroup => exact congrArg (fun groups => (groups idx).metadata) hsettled.1.groups
  | allocated r =>
    obtain ⟨metadata, hc, hidle, -⟩ := hsettled
    have hmetadata : (fs'.groups idx).metadata = metadata := by
      rw [hidle.groups]
      simp [Fs.setMetadata]
    have hstop := hc.le
    rw [hbits, BlockGroup.groupSize] at hstop
    simp only [hmetadata]
    refine ⟨hc.pos, hc.len_le, hc.first_le, by omega, fun b hb => ?_, fun i hi => ?_, ?_⟩
    · obtain ⟨hlo, hhi⟩ := IdRange.contains_iff.mp hb
      have hfirst := hc.first_le
      refine ⟨hc.spares hb, fun run hrun => hc.unpinned run hrun b hb (by omega), hc.clear b hb, ?_⟩
      rw [hc.bits, show (fs.groups idx).firstBlock + (b - (fs.groups idx).firstBlock) = b by omega,
        if_pos hb]
    · rw [hc.bits, if_neg (by rw [hi]; decide)]
    · have hfree := hc.len_free
      rw [hc.desc, BlockGroupDesc.clearBlockUninit_eq]
      simp only
      omega

def Specimen.crowded : Specimen where
  blocks := 16
  taken := 11
  credits := 8
  taken_ge := by decide
  taken_le := by decide
  blocks_le := bits_16

def pinnedRequest : Except Fault GroupBlockAlloc × Fs :=
  BlockGroup.allocBlocks Specimen.wide 0 2 5 [(12, 1)] (Specimen.crowded.fs Specimen.wide)

theorem group_allocation_safe_beside_pin : ¬Specimen.crowded.group.InZone 13 ∧
    (pinnedRequest.2.groups 0).metadata.desc.freeBlocksCount + 2 = 5 := by
  have hrun : pinnedRequest.1 = .ok (.allocated ⟨13, 15⟩) := by decide +kernel
  have hsafe := group_allocation_safe (by decide) (by decide) (Op.run_eq hrun)
  exact ⟨(hsafe.2.2.2.2.1 13 (by decide)).1, hsafe.2.2.2.2.2.2⟩

end GroupAllocation

namespace BlockGroup

variable {group : BlockGroup} {count sbFreeBlocks : Nat} {pinnedFrees : List (Nat × Nat)}

theorem of_mem_pinnedBits {pin : IdRange} (hpin : pin ∈ group.pinnedBits pinnedFrees) (hi : pin.contains i = true) :
    ∃ run ∈ pinnedFrees, run.1 ≤ group.firstBlock + i ∧ group.firstBlock + i < run.1 + run.2 := by
  obtain ⟨run, hrun, hsome⟩ := List.mem_filterMap.mp hpin
  refine ⟨run, hrun, ?_⟩
  simp only at hsome
  split_ifs at hsome with hlt
  cases hsome
  have hrange := IdRange.contains_iff.mp hi
  simp only at hrange
  omega

theorem free_of_unrequested (hcount : 0 < count) (hsb : 0 < sbFreeBlocks)
    (hnone : group.requestedCount count sbFreeBlocks = 0) : group.metadata.desc.freeBlocksCount = 0 := by
  unfold requestedCount groupSize at hnone
  omega

theorem clear_pinned_of_found_none (hcount : 0 < count) (hsb : 0 < sbFreeBlocks)
    (hbooks : group.metadata.desc.freeBlocksCount = group.metadata.blockBitmap.freeIds.card)
    (hpins : group.pinnedBits pinnedFrees = [] ∨ group.requestedCount count sbFreeBlocks ≤ 1)
    (hnone : group.found count sbFreeBlocks pinnedFrees = none) (hi : i < group.metadata.blockBitmap.len)
    (hclear : group.metadata.blockBitmap.isAllocated i = false) :
    ∃ pin ∈ group.pinnedBits pinnedFrees, pin.contains i = true := by
  have hmem : i ∈ group.metadata.blockBitmap.freeIds :=
    mem_filter.mpr ⟨mem_range.mpr hi, hclear⟩
  have hcard := card_pos.mpr ⟨i, hmem⟩
  rcases Nat.eq_zero_or_pos (group.requestedCount count sbFreeBlocks) with hzero | hpos
  · have hfree := free_of_unrequested hcount hsb hzero
    omega
  · obtain ⟨r, hr, hlen, pin, hpin, hover⟩ :=
      IdBitmap.searchUnpinned_exhausts hpos hnone hi hclear
    refine ⟨pin, hpin, ?_⟩
    rcases hpins with hempty | hone
    · rw [hempty] at hpin
      cases hpin
    · rw [IdRange.contains_iff] at hr ⊢
      simp only [IdRange.overlaps, Bool.and_eq_true, decide_eq_true_eq] at hover
      unfold IdRange.len at hlen
      omega

def Reserves (group : BlockGroup) : Prop :=
  ∀ i < group.metadata.blockBitmap.len, group.InZone (group.firstBlock + i) →
    group.metadata.blockBitmap.isAllocated i = true

instance (group : BlockGroup) : Decidable group.Reserves :=
  inferInstanceAs (Decidable (∀ i < group.metadata.blockBitmap.len, _ → _))

theorem not_suspect (hcount : 0 < count) (hsb : 0 < sbFreeBlocks)
    (hbooks : group.metadata.desc.freeBlocksCount = group.metadata.blockBitmap.freeIds.card)
    (hzone : group.Reserves) : ¬group.Suspect count sbFreeBlocks pinnedFrees := by
  intro hsuspect
  unfold Suspect at hsuspect
  split at hsuspect
  · rename_i hnone
    obtain ⟨hfree, hempty⟩ := hsuspect
    rw [hbooks] at hfree
    obtain ⟨i, hi⟩ := card_pos.mp hfree
    obtain ⟨hlt, hclear⟩ := mem_filter.mp hi
    obtain ⟨pin, hpin, -⟩ := clear_pinned_of_found_none hcount hsb hbooks (.inl hempty) hnone
      (mem_range.mp hlt) hclear
    rw [hempty] at hpin
    cases hpin
  · rename_i r hsome
    obtain ⟨b, hb, hin⟩ := overlapsSystemZone_iff.mp hsuspect
    rcases group.search_cases count sbFreeBlocks pinnedFrees with hs | ⟨range, bitmap, hs, htakes⟩
    · cases (congrArg Prod.fst hs).symm.trans hsome
    obtain rfl : range = r := Option.some.inj ((congrArg Prod.fst hs).symm.trans hsome)
    obtain ⟨hlo, hhi⟩ := IdRange.contains_iff.mp hb
    simp only at hlo hhi
    have hstop := htakes.le
    have hset := hzone (b - group.firstBlock) (by omega)
      (by rwa [show group.firstBlock + (b - group.firstBlock) = b by omega])
    rw [htakes.clear _ (IdRange.contains_iff.mpr (by omega))] at hset
    cases hset

end BlockGroup

namespace Fs

variable {idx : Nat}

structure Tallied (fs : Fs) : Prop where
  group : ∀ idx < fs.sb.nrBlockGroups, (fs.groups idx).metadata.desc.freeBlocksCount =
    (fs.groups idx).metadata.blockBitmap.freeIds.card
  volume : fs.sb.freeBlocksCount = fs.freeTotal

def Reserves (fs : Fs) : Prop := ∀ idx < fs.sb.nrBlockGroups, (fs.groups idx).Reserves

variable {base fs : Fs}

theorem journalCapture_raises (g : JournalGeometry) : Raises (· ∈ captureFaults) (journalCapture g) :=
  .bind .get fun _ => capturePatch_raises g _ _

theorem searchGroups_settles (g : JournalGeometry) {count : Nat} {pinnedFrees : List (Nat × Nat)}
    {ring : List Nat} (hidle : base.Idles fs) (hgood : ∀ idx ∈ ring,
      ¬(base.groups idx).Suspect count base.sb.freeBlocksCount pinnedFrees) (pinnedBlocked : Bool) :
    (searchGroups g count base.sb.freeBlocksCount pinnedFrees ring pinnedBlocked).Ends fs
      (fun _ _ => True)
      fun e _ => e ∈ captureFaults ∨ (∃ msg, e = .error .enospc msg) ∧
        ∀ idx ∈ ring, (base.groups idx).found count base.sb.freeBlocksCount pinnedFrees = none := by
  induction ring generalizing fs pinnedBlocked with
  | nil =>
    unfold searchGroups
    split_ifs
    · exact .bind_modify (.fail (.inr ⟨⟨_, rfl⟩, fun _ h => absurd h List.not_mem_nil⟩))
    · exact .fail (.inr ⟨⟨_, rfl⟩, fun _ h => absurd h List.not_mem_nil⟩)
  | cons idx ring ih =>
    have hsettles := BlockGroup.allocBlocks_settles g fs idx count base.sb.freeBlocksCount pinnedFrees
    rw [show fs.groups idx = base.groups idx by rw [hidle.groups]] at hsettles
    refine Op.Ends.bind (Q := fun res fs1 =>
        BlockGroup.Settled fs idx count base.sb.freeBlocksCount pinnedFrees fs1 res)
      (hsettles.mono (fun _ _ h => h) fun e _ he => .inl ?_) fun res fs1 h1 => ?_
    · rcases he with ⟨-, he | ⟨-, hsuspect⟩⟩
      · exact he
      · exact absurd hsuspect (hgood idx List.mem_cons_self)
    · cases res with
      | allocated r =>
        obtain ⟨metadata, hc, hkept, -⟩ := h1
        have hsb : fs1.sb = base.sb := hkept.sb.trans hidle.sb
        have hlen := hc.len_sb
        have hdec : fs1.sb.decFreeBlocks r.len =
            .ok { fs1.sb with freeBlocksCount := fs1.sb.freeBlocksCount - r.len } := by
          rw [SuperBlock.decFreeBlocks, if_pos (by rw [hsb]; exact hlen)]
        refine Op.Ends.bind (Q := fun _ _ => True) ?_ fun _ _ _ => .ret trivial
        refine .bind_get (.bind_of_eq (ofExcept_ok hdec _) (.bind_modify ?_))
        exact (journalCapture_raises g _).mono (fun _ _ _ => trivial) fun e _ he => .inl he
      | noFit pinnedInGroup =>
        obtain ⟨hkept, hnone, -⟩ := h1
        refine (ih (trans_of Idles hidle hkept)
          (fun k hk => hgood k (List.mem_cons_of_mem idx hk)) _).mono (fun _ _ h => h) fun e _ he => ?_
        refine he.imp_right fun hfull => ⟨hfull.1, fun k hk => ?_⟩
        rcases List.mem_cons.mp hk with rfl | hk
        · rw [← hidle.groups]
          exact hnone
        · exact hfull.2 k hk

theorem freeBlocks_layout {g : JournalGeometry} {auth : BlockFreeAuth} {fs' : Fs} (hr : fs.Ready)
    (hw : fs.layout.Wf) (hrun : ∀ b ∈ run auth.start auth.count, fs.layout.Contains b)
    (h : freeBlocks g auth fs = (.ok (), fs')) : fs'.layout = fs.layout :=
  ((freeBlocks_ends hr hw g auth hrun).of_ok h).layout

theorem Tallied.pos (htally : fs.Tallied) (hidx : idx < fs.sb.nrBlockGroups)
    (hi : i ∈ (fs.groups idx).metadata.blockBitmap.freeIds) : 0 < fs.sb.freeBlocksCount := by
  rw [htally.volume]
  exact (card_pos.mpr ⟨i, hi⟩).trans_le
    (single_le_sum (f := fun k => (fs.groups k).metadata.blockBitmap.freeIds.card)
      (fun _ _ => zero_le) (mem_range.mpr hidx))

theorem clear_located (hw : fs.layout.Wf) (hb : fs.layout.Contains b) (hclear : fs.blockUsed b = false) :
    fs.groupOf b < fs.sb.nrBlockGroups ∧ (fs.groups (fs.groupOf b)).firstBlock ≤ b ∧
      b - (fs.groups (fs.groupOf b)).firstBlock ∈
        (fs.groups (fs.groupOf b)).metadata.blockBitmap.freeIds := by
  obtain ⟨hidx, hlo, hhi⟩ := hw.located hb
  have hbits := hw.bits _ hidx
  refine ⟨hidx, hlo, mem_filter.mpr ⟨mem_range.mpr ?_, hclear⟩⟩
  change b - (fs.layout.group (fs.layout.groupOf b)).firstBlock <
    (fs.layout.group (fs.layout.groupOf b)).blockBits
  omega

theorem mem_groupRing {first nr : Nat} (hidx : idx < nr) : idx ∈ groupRing first nr := by
  refine List.mem_map.mpr ⟨(idx + (nr - first % nr)) % nr, List.mem_range.mpr (Nat.mod_lt _ (by omega)), ?_⟩
  have hmod := Nat.mod_lt first (show 0 < nr by omega)
  rw [Nat.add_mod, Nat.mod_mod, ← Nat.add_mod]
  have hsplit : first + (idx + (nr - first % nr)) = idx + nr * (first / nr + 1) := by
    have := Nat.div_add_mod first nr
    rw [mul_add]
    omega
  rw [hsplit, Nat.add_mul_mod_self_left, Nat.mod_eq_of_lt hidx]

end Fs

section VolumeAllocation

variable {g : JournalGeometry} {fs fs' : Fs} {count goal : Nat} {e : Fault}

def Specimen.packed : Specimen where
  blocks := 16
  taken := 16
  credits := 8
  taken_ge := taken_16
  taken_le := full_16
  blocks_le := bits_16

def packedVolume : Fs :=
  (Fs.freeBlocks Specimen.wide (Fs.BlockFreeAuth.withoutRevokeDuty 10 1) (Specimen.packed.fs Specimen.wide)).2

theorem packedVolume_layout : packedVolume.layout = (packed.fs wide).layout := by
  have hfreed : (Fs.freeBlocks wide (Fs.BlockFreeAuth.withoutRevokeDuty 10 1)
      (packed.fs wide)).1 = .ok () := by decide +kernel
  rw [packedVolume]
  refine Fs.freeBlocks_layout (.live (packed.live wide)) (packed.wf wide)
    (fun b hb => ?_) (Op.run_eq hfreed)
  have hlt : b < 16 := hb.2.trans (by decide)
  exact ⟨zero_le, hlt⟩

theorem packedVolume_tallied : packedVolume.Tallied ∧ packedVolume.Reserves := by
  unfold Fs.Reserves
  refine ⟨⟨?_, ?_⟩, ?_⟩
  · decide +kernel
  · decide +kernel
  · decide +kernel

def pinnedVolume : Fs :=
  (Fs.freeBlocks Specimen.wide (Fs.BlockFreeAuth.withoutRevokeDuty 10 1) (Specimen.crowded.fs Specimen.wide)).2

end VolumeAllocation

end Ext4
