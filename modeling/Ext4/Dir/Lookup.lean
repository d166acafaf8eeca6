import Ext4.Dir.Chain
import Ext4.Dir.Htree

namespace Ext4

open Bytes List

variable {β : Type} {fuel leaf : Nat} {name : Name} {read : Nat → Except Fault Block}

namespace DirBlockView

variable (v : DirBlockView)

def entriesFrom : Nat → Nat → Except Fault (List (Nat × DirEntryHeader))
  | 0, _ => .ok []
  | fuel + 1, cursor =>
    if v.limit ≤ cursor then .ok []
    else
      match v.readHeader cursor with
      | .error e => .error e
      | .ok header => (entriesFrom fuel (cursor + header.recLen)).map ((cursor, header) :: ·)

def entries : Except Fault (List (Nat × DirEntryHeader)) := v.entriesFrom (v.limit / 8 + 1) 0

variable {v}

theorem scan_entries {cursor : Nat} {es : List (Nat × DirEntryHeader)} (h : v.entriesFrom fuel cursor = .ok es)
    (visit : Nat → DirEntryHeader → Option β) :
    v.scan visit fuel cursor = .ok (es.findSome? fun e => visit e.1 e.2) := by
  induction fuel generalizing cursor es with
  | zero =>
    cases h
    rfl
  | succ fuel ih =>
    unfold entriesFrom at h
    unfold scan
    split at h
    next hend =>
      cases h
      rw [if_pos hend]
      rfl
    next hend =>
      rw [if_neg hend]
      cases hread : v.readHeader cursor with
      | error e =>
        rw [hread] at h
        cases h
      | ok header =>
        rw [hread] at h
        dsimp only at h ⊢
        cases hrest : v.entriesFrom fuel (cursor + header.recLen) with
        | error e =>
          rw [hrest] at h
          cases h
        | ok rest =>
          rw [hrest] at h
          cases h
          rw [findSome?_cons]
          cases visit cursor header with
          | some found => rfl
          | none => exact ih hrest

end DirBlockView

namespace Directory

variable {dir : Directory} {es : Nat → List (Nat × DirEntryHeader)}

structure Legible (dir : Directory) (es : Nat → List (Nat × DirEntryHeader)) : Prop where
  parses : ∀ i < dir.nrBlocks, ∃ v, dir.view i = .ok v ∧ v.entries = .ok (es i)
  distinct : ∀ i < dir.nrBlocks, ∀ j < dir.nrBlocks, ∀ v v', dir.view i = .ok v → dir.view j = .ok v' →
    ∀ e ∈ es i, ∀ e' ∈ es j, e.2.ino ≠ 0 → e'.2.ino ≠ 0 →
      v.entryName e.1 e.2 = v'.entryName e'.1 e'.2 → i = j ∧ e = e'

theorem search_hit {visit : Nat → Nat → DirEntryHeader → DirBlockView → Option β} {x : β} {idxs : List Nat}
    (hleaf : leaf ∈ idxs)
    (h : ∀ i ∈ idxs, ∃ v, dir.view i = .ok v ∧ ∃ found, v.iterEntries (fun off header => visit i off header v) =
      .ok found ∧ (i = leaf → found = some x) ∧ (i ≠ leaf → found = none)) :
    dir.search visit idxs = .ok (some x) := by
  induction idxs with
  | nil => cases hleaf
  | cons i rest ih =>
    obtain ⟨v, hview, found, hiter, hself, hother⟩ := h i mem_cons_self
    unfold search
    rw [hview]
    dsimp only
    rw [hiter]
    by_cases hi : i = leaf
    · rw [hself hi]
    · rw [hother hi]
      exact ih ((mem_cons.mp hleaf).resolve_left (Ne.symm hi)) fun j hj => h j (mem_cons_of_mem i hj)

theorem nameAt_some {i off : Nat} {header : DirEntryHeader} {v : DirBlockView} {info : DirEntryInfo}
    (h : nameAt name i off header v = some info) : header.ino ≠ 0 ∧ v.entryName off header = name := by
  unfold nameAt at h
  split at h
  · cases h
  next hlive => exact ⟨fun h0 => hlive (.inl h0), not_not.mp fun hne => hlive (.inr hne)⟩

theorem findEntryInfo_index (dir : Directory) (h : dir.Legible es) (name : Name) (dx : Option DxCtx) :
    dir.findEntryInfo name dx = dir.scanForName name := by
  unfold findEntryInfo
  cases hdx : dx.bind fun dx => dir.dxLeaf dx name with
  | none => rfl
  | some leaf =>
    have hleaf : leaf < dir.nrBlocks := by
      obtain ⟨ctx, -, hctx⟩ := Option.bind_eq_some_iff.mp hdx
      unfold dxLeaf at hctx
      split at hctx
      · split at hctx
        next hlt =>
          cases hctx
          exact hlt
        next => cases hctx
      · cases hctx
    obtain ⟨v, hview, hentries⟩ := h.parses leaf hleaf
    have hblock : dir.scanBlockForName leaf name =
        .ok ((es leaf).findSome? fun e => nameAt name leaf e.1 e.2 v) := by
      unfold scanBlockForName search
      rw [hview]
      dsimp only [DirBlockView.iterEntries]
      rw [DirBlockView.scan_entries hentries]
      cases (es leaf).findSome? fun e => nameAt name leaf e.1 e.2 v <;> rfl
    dsimp only
    rw [hblock]
    cases hfound : (es leaf).findSome? fun e => nameAt name leaf e.1 e.2 v with
    | none => rfl
    | some info =>
      obtain ⟨e, he, hat⟩ := exists_of_findSome?_eq_some hfound
      have hsearch : dir.search (nameAt name) (range dir.nrBlocks) = .ok (some info) := by
        refine search_hit (mem_range.mpr hleaf) fun i hi => ?_
        obtain ⟨w, hw, hes⟩ := h.parses i (mem_range.mp hi)
        refine ⟨w, hw, _, DirBlockView.scan_entries hes _, fun heq => ?_, fun hne => ?_⟩
        · subst heq
          cases hview.symm.trans hw
          exact hfound
        · refine findSome?_eq_none_iff.mpr fun e' he' => Option.eq_none_iff_forall_ne_some.mpr fun x hx => hne ?_
          have hthis := nameAt_some hx
          have hthat := nameAt_some hat
          exact (h.distinct i (mem_range.mp hi) leaf hleaf w v hw hview e' he' e he hthis.1 hthat.1
            (hthis.2.trans hthat.2.symm)).1
      unfold scanForName
      rw [hsearch]

end Directory

namespace DxEntries

variable {b b' : Block} {off : Nat} {entries entries' : DxEntries} {target : UInt32}

def Sorted (entries : DxEntries) : Prop :=
  ∀ i j, 1 ≤ i → i ≤ j → j < entries.count → entries.hash i ≤ entries.hash j

def Last (entries : DxEntries) (target : UInt32) (k : Nat) : Prop :=
  k < entries.count ∧ (entries.Sorted → (k = 0 ∨ entries.hash k ≤ target) ∧
    ∀ j, k < j → j < entries.count → target < entries.hash j)

theorem parse_fits (h : parse b off = .ok entries) :
    entries.block = b ∧ entries.off = off ∧ 1 ≤ entries.count ∧ off + entries.count * dxEntrySize ≤ 4096 := by
  unfold parse at h
  dsimp only at h
  split at h
  · cases h
  next hfit =>
    cases h
    dsimp only [dxEntrySize] at hfit ⊢
    refine ⟨rfl, rfl, ?_, ?_⟩ <;> omega

theorem bisect_range {fuel p q : Nat} (hpq : p ≤ q + 1) :
    p ≤ entries.bisect target fuel p q ∧ entries.bisect target fuel p q ≤ q + 1 := by
  induction fuel generalizing p q with
  | zero => exact ⟨le_refl p, hpq⟩
  | succ fuel ih =>
    unfold bisect
    dsimp only
    split_ifs with hle hlt
    · have := @ih p (p + (q - p) / 2 - 1) (by omega)
      omega
    · have := @ih (p + (q - p) / 2 + 1) q (by omega)
      omega
    · exact ⟨le_refl p, hpq⟩

theorem bisect_sorted (hs : entries.Sorted) {fuel p q : Nat} (hp : 1 ≤ p) (hq : q < entries.count)
    (hfuel : q + 1 ≤ p + fuel) (hleft : ∀ i, 1 ≤ i → i < p → entries.hash i ≤ target)
    (hright : ∀ i, q < i → i < entries.count → target < entries.hash i) :
    (∀ i, 1 ≤ i → i < entries.bisect target fuel p q → entries.hash i ≤ target) ∧
      ∀ i, entries.bisect target fuel p q ≤ i → i < entries.count → target < entries.hash i := by
  induction fuel generalizing p q with
  | zero => exact ⟨hleft, fun i hi hlt => hright i (by change p ≤ i at hi; omega) hlt⟩
  | succ fuel ih =>
    unfold bisect
    dsimp only
    split_ifs with hle hlt
    · refine ih hp (by omega) (by omega) hleft fun i hi hi' => UInt32.lt_of_lt_of_le hlt ?_
      exact hs _ i (by omega) (by omega) hi'
    · refine ih (by omega) hq (by omega) (fun i hi hi' => ?_) hright
      exact UInt32.le_trans (hs i (p + (q - p) / 2) hi (by omega) (by omega)) (UInt32.not_lt.mp hlt)
    · exact ⟨hleft, fun i hi hi' => hright i (by omega) hi'⟩

theorem probe_last (hpos : 1 ≤ entries.count) (target : UInt32) :
    ∃ k, entries.Last target k ∧ entries.probe target = entries.child k := by
  have hrange := @bisect_range entries target entries.count 1 (entries.count - 1) (by omega)
  refine ⟨_, ⟨by omega, fun hs => ?_⟩, rfl⟩
  obtain ⟨hleft, hright⟩ := @bisect_sorted entries target hs entries.count 1 (entries.count - 1) (le_refl 1)
    (by omega) (by omega) (fun i hi hi' => by omega) fun i hi hi' => by omega
  refine ⟨?_, fun j hj hlt => hright j (by omega) hlt⟩
  by_cases hone : entries.bisect target entries.count 1 (entries.count - 1) = 1
  · exact .inl (by rw [hone])
  · exact .inr (hleft _ (by omega) (by omega))

theorem bisect_congr (hhash : ∀ i, 1 ≤ i → i < entries.count → entries'.hash i = entries.hash i) {p q : Nat}
    (hp : 1 ≤ p) (hq : q < entries.count) :
    entries'.bisect target fuel p q = entries.bisect target fuel p q := by
  induction fuel generalizing p q with
  | zero => rfl
  | succ fuel ih =>
    unfold bisect
    dsimp only
    split_ifs with hle hlt hlt' hlt'
    · exact ih hp (by omega)
    · rw [hhash _ (by omega) (by omega)] at hlt
      exact absurd hlt hlt'
    · rw [hhash _ (by omega) (by omega)] at hlt
      exact absurd hlt' hlt
    · exact ih (by omega) hq
    · rfl

theorem probe_congr (h : parse b off = .ok entries)
    (hag : Agree b b' off (off + entries.count * dxEntrySize)) (target : UInt32) :
    (⟨b', entries.off, entries.count⟩ : DxEntries).probe target = entries.probe target := by
  obtain ⟨rfl, rfl, hpos, hfit⟩ := parse_fits h
  have hrange := @bisect_range entries target entries.count 1 (entries.count - 1) (by omega)
  have hread (i at_ : Nat) (hi : i < entries.count) (hat : at_ + 4 ≤ 8) :
      getLE b' (entries.off + i * dxEntrySize + at_) 4 = getLE entries.block (entries.off + i * dxEntrySize + at_) 4 := by
    have hmul := Nat.mul_le_mul_right dxEntrySize hi
    rw [Nat.succ_mul] at hmul
    refine congrArg leVal (hag.slice_eq 4 (by omega) ?_)
    unfold dxEntrySize at hmul ⊢
    omega
  unfold probe
  dsimp only
  rw [bisect_congr (fun i _ hi => congrArg UInt32.ofNat (hread i 0 hi (by decide))) (Nat.le_refl 1) (by omega)]
  exact congrArg (· % 2 ^ 28) (hread _ 4 (by omega) (by decide))

end DxEntries

inductive DxPath (read : Nat → Except Fault Block) (target : UInt32) : Nat → Block → Nat → Nat → Prop where
  | leaf {b off entries k} : DxEntries.parse b off = .ok entries → entries.Last target k →
      DxPath read target 0 b off (entries.child k)
  | node {below b off entries k b' leaf} : DxEntries.parse b off = .ok entries → entries.Last target k →
      read (entries.child k) = .ok b' → DxPath read target below b' dxNodeEntriesOff leaf →
      DxPath read target (below + 1) b off leaf

theorem dxDescend_path {target : UInt32} {below : Nat} {visited : List Nat} {b : Block} {off : Nat}
    (h : dxDescend read target below visited b off = .ok (some leaf)) :
    DxPath read target below b off leaf := by
  induction below generalizing visited b off with
  | zero =>
    unfold dxDescend at h
    split at h
    · cases h
    next entries hparse =>
      obtain ⟨k, hlast, hprobe⟩ := DxEntries.probe_last (DxEntries.parse_fits hparse).2.2.1 target
      dsimp only at h
      rw [hprobe] at h
      split at h
      · cases h
      · cases h
        exact .leaf hparse hlast
  | succ below ih =>
    unfold dxDescend at h
    split at h
    · cases h
    next entries hparse =>
      obtain ⟨k, hlast, hprobe⟩ := DxEntries.probe_last (DxEntries.parse_fits hparse).2.2.1 target
      dsimp only at h
      rw [hprobe] at h
      split at h
      · cases h
      split at h
      · cases h
      next b' hread => exact .node hparse hlast hread (ih h)

theorem dxLookupLeaf_path {dx : DxCtx} (h : dxLookupLeaf read name dx = .ok (some leaf)) :
    ∃ rootBlock root dirhash, read 0 = .ok rootBlock ∧ parseDxRoot rootBlock = .ok root ∧
      DirHash.ext4fsDirhash name (if dx.unsigned ∧ root.hashVersion ≤ dxHashTea then root.hashVersion + 3
        else root.hashVersion) dx.seed = some dirhash ∧
      DxPath read dirhash.hash root.indirectLevels rootBlock (dxRootInfoOff + root.infoLength) leaf := by
  unfold dxLookupLeaf at h
  split at h
  · cases h
  next rootBlock hread =>
    split at h
    · cases h
    next root hroot =>
      dsimp only at h
      split at h
      · cases h
      next dirhash hhash => exact ⟨rootBlock, root, dirhash, hread, hroot, hhash, dxDescend_path h⟩

namespace Directory

def rooted : Directory := ⟨fun _ => some (DirBlock.dotDots 4096 2 2 (zeros _)), 4096, none⟩

def rootedView : DirBlockView := ⟨DirBlock.dotDots 4096 2 2 (zeros _), 4096⟩

def rootedEntries : List (Nat × DirEntryHeader) := [(0, ⟨2, 12, 1, 2⟩), (12, ⟨2, 4084, 2, 2⟩)]

theorem rooted_legible : rooted.Legible fun _ => rootedEntries := by
  have hzero : ∀ i < rooted.nrBlocks, i = 0 := fun i hi => Nat.lt_one_iff.mp hi
  have hview : rooted.view 0 = .ok rootedView := rfl
  have hparse : rootedView.entries = .ok rootedEntries ∧ ∀ e ∈ rootedEntries, ∀ e' ∈ rootedEntries,
      rootedView.entryName e.1 e.2 = rootedView.entryName e'.1 e'.2 → e = e' := by
    decide +kernel
  refine ⟨fun i hi => ?_, fun i hi j hj v v' hv hv' e he e' he' _ _ hname => ?_⟩
  · rw [hzero i hi]
    exact ⟨_, hview, hparse.1⟩
  · obtain rfl := hzero i hi
    obtain rfl := hzero j hj
    cases hview.symm.trans hv
    cases hview.symm.trans hv'
    exact ⟨rfl, hparse.2 e he e' he' hname⟩

end Directory

end Ext4
