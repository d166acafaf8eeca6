import Ext4.Extent.Edits

namespace Ext4

open Bytes ExtentHeader List ExtentTree RawExtentHeader Op

variable {index : List ExtentIdx} {bid : Nat} {p : List Extent × Nat} {csumSeed : Option UInt32}

section Node

variable {n depth max : Nat} {α : Type} {c : Cell n α} {b b' : Buffer n} {entries : List α} {extents : List Extent}

structure Holds (c : Cell n α) (depth : Nat) (b : Buffer n) (entries : List α) : Prop where
  header : ∃ max, ExtentHeader.tryFrom (.read b) = .ok ⟨entries.length, max, depth⟩
  room : entrySize * (1 + entries.length) ≤ n
  cells : c.readAll b entrySize entries.length = entries

theorem ExtentHeader.fromTrusted_of_tryFrom {raw : RawExtentHeader} {header : ExtentHeader}
    (h : tryFrom raw = .ok header) : fromTrusted raw = header := by
  unfold tryFrom at h
  split_ifs at h
  exact Except.ok.inj h

theorem RawExtentHeader.read_congr (h : slice b 0 entrySize = slice b' 0 entrySize) :
    read b = read b' := by
  have hsub : ∀ k m, k + m ≤ entrySize → getLE b k m = getLE b' k m := fun k m hk => by
    have hs := slice_congr_sub hk h
    rw [zero_add] at hs
    exact congrArg leVal hs
  unfold read
  rw [hsub 0 2 (by decide), hsub 2 2 (by decide), hsub 4 2 (by decide), hsub 6 2 (by decide),
    hsub 8 4 (by decide)]

theorem Holds.congr (h : Holds c depth b entries) (hwidth : c.width = entrySize)
    (hslice : ∀ o w, o + w ≤ entrySize * (1 + entries.length) → slice b' o w = slice b o w) :
    Holds c depth b' entries := by
  obtain ⟨hheader, hroom, hcells⟩ := h
  refine ⟨?_, hroom, ?_⟩
  · rw [read_congr (hslice 0 entrySize (by rw [Nat.mul_add]; omega))]
    exact hheader
  · refine (c.readAll_congr fun i hi => hslice _ _ ?_).trans hcells
    have hle := Nat.mul_le_mul_left entrySize (Nat.succ_le_of_lt hi)
    rw [Nat.mul_succ] at hle
    rw [hwidth, Nat.mul_add]
    omega

theorem holds_nodeBytes (hwidth : c.width = entrySize) (hfits : ∀ a ∈ entries, c.Fits a)
    (hroom : entrySize * (1 + entries.length) ≤ n) (hmax : entries.length ≤ max)
    (hmax' : max < 256 ^ 2) (hdepth : depth ≤ 5) :
    Holds c depth (nodeBytes n max depth c entries) entries := by
  have hsplit : entrySize * (1 + entries.length) = entrySize + entrySize * entries.length := by
    rw [mul_add, mul_one]
  refine ⟨⟨max, ?_⟩, hroom, c.readAll_writeAll _ hfits (by rw [hwidth]; omega)⟩
  rw [nodeBytes, read_congr (c.slice_writeAll _ (.inl (by omega))),
    read_write (by omega) (show extentMagic < 256 ^ 2 by decide)
      (show entries.length < 256 ^ 2 by omega) hmax' (show depth < 256 ^ 2 by omega)
      (show 0 < 256 ^ 4 by decide)]
  simp only [tryFrom, ne_eq, not_true_eq_false, if_false]
  rw [if_neg (by omega), if_neg (by omega)]

theorem Holds.seal {c : Cell 4096 α} {b : Block} (h : Holds c depth b entries)
    (hwidth : c.width = entrySize) (hlen : entries.length ≤ leafMax) (csumSeed : Option UInt32) :
    Holds c depth (sealNode csumSeed b) entries := by
  unfold sealNode
  cases csumSeed with
  | none => exact h
  | some seed =>
    refine h.congr hwidth fun o w how => ?_
    refine slice_splice_disjoint (.inl (le_trans how ?_))
    exact Nat.mul_le_mul_left entrySize (Nat.add_le_add_left hlen 1)

theorem holds_leafNode (hfits : ∀ e ∈ extents, e.Encodable) (hlen : extents.length ≤ leafMax) :
    Holds (extentCell 4096) 0 (leafNode csumSeed extents) extents := by
  have hle : extents.length ≤ 340 := hlen
  exact (holds_nodeBytes rfl hfits (by unfold entrySize; omega) hlen (by decide) (by decide)).seal rfl
    hlen csumSeed

def ExtentIdx.Fits (idx : ExtentIdx) : Prop := idx.block < 2 ^ 32 ∧ idx.leaf < 2 ^ 48

theorem holds_interiorNode (hfits : ∀ idx ∈ index, idx.Fits) (hlen : index.length ≤ interiorMax) :
    Holds (idxCell 4096) 1 (interiorNode csumSeed index) index := by
  have hle : index.length ≤ 340 := hlen
  exact (holds_nodeBytes rfl hfits (by unfold entrySize; omega) hlen (by decide) (by decide)).seal rfl
    hlen csumSeed

theorem holds_inlineLeafRoot (hfits : ∀ e ∈ extents, e.Encodable)
    (hlen : extents.length ≤ inlineMax) : Holds (extentCell 60) 0 (inlineLeafRoot extents) extents := by
  have hle : extents.length ≤ 4 := hlen
  exact holds_nodeBytes rfl hfits (by unfold entrySize; omega) hlen (by decide) (by decide)

theorem holds_indexRoot (hfits : ∀ idx ∈ index, idx.Fits) (hlen : index.length ≤ inlineMax) (hdepth : depth ≤ 5) :
    Holds (idxCell 60) depth (indexRoot index depth) index := by
  have hle : index.length ≤ 4 := hlen
  exact holds_nodeBytes rfl hfits (by unfold entrySize; omega) hlen (by decide) hdepth

end Node

section Scan

variable {α β : Type} {key : α → Nat} {ib : Nat}

theorem scanEntries_cases (ib : Nat) (acc : Option α) {entries : List α}
    (hsorted : entries.Pairwise fun a b => key a ≤ key b) :
    ((∀ a ∈ entries, ib < key a) ∧ scanEntries key ib acc entries = acc) ∨
      ∃ front a rest, entries = front ++ a :: rest ∧ scanEntries key ib acc entries = some a ∧
        key a ≤ ib ∧ ∀ b ∈ rest, ib < key b := by
  induction entries generalizing acc with
  | nil => exact .inl ⟨by simp, rfl⟩
  | cons a rest ih =>
    obtain ⟨hhead, hrest⟩ := pairwise_cons.mp hsorted
    unfold scanEntries
    split
    next hle =>
      rcases ih (some a) hrest with ⟨hall, heq⟩ | ⟨front, x, tail, rfl, heq, hx, htail⟩
      · exact .inr ⟨[], a, rest, rfl, heq, hle, hall⟩
      · exact .inr ⟨a :: front, x, tail, rfl, heq, hx, htail⟩
    next hgt =>
      refine .inl ⟨fun b hb => ?_, rfl⟩
      rcases mem_cons.mp hb with rfl | hb
      · omega
      · exact lt_of_lt_of_le (not_le.mp hgt) (hhead b hb)

theorem scanEntries_split {front rest : List α} {a : α} (acc : Option α)
    (hfront : ∀ b ∈ front, key b ≤ ib) (ha : key a ≤ ib) (hrest : ∀ b ∈ rest, ib < key b) :
    scanEntries key ib acc (front ++ a :: rest) = some a := by
  induction front generalizing acc with
  | nil =>
    rw [nil_append, scanEntries, if_pos ha]
    cases rest with
    | nil => rfl
    | cons b rest => rw [scanEntries, if_neg (not_le.mpr (hrest b mem_cons_self))]
  | cons b front ih =>
    rw [cons_append, scanEntries, if_pos (hfront b mem_cons_self)]
    exact ih (some b) fun c hc => hfront c (mem_cons_of_mem b hc)

theorem scanEntries_mem {entries : List α} {acc : Option α} {a : α}
    (h : scanEntries key ib acc entries = some a) : acc = some a ∨ a ∈ entries := by
  induction entries generalizing acc with
  | nil => exact .inl h
  | cons b rest ih =>
    unfold scanEntries at h
    split at h
    · rcases ih h with hb | hmem
      · exact .inr (by simp [Option.some.inj hb])
      · exact .inr (mem_cons_of_mem b hmem)
    · exact .inl h

theorem scanEntries_map (f : β → α) (acc : Option β) (entries : List β) :
    scanEntries key ib (acc.map f) (entries.map f) =
      (scanEntries (fun x => key (f x)) ib acc entries).map f := by
  induction entries generalizing acc with
  | nil => rfl
  | cons x entries ih =>
    simp only [map_cons, scanEntries]
    split_ifs
    · exact ih (some x)
    · rfl

end Scan

section Shape

def leafPlan (extents : List Extent) (leafBids : List Nat) : List (List Extent × Nat) :=
  (extents.chunks leafMax).zip leafBids

def leafEntry (p : List Extent × Nat) : ExtentIdx := ⟨firstBlock p.1, p.2⟩

def interiorPlan (plan : List (List Extent × Nat)) (interiorBids : List Nat) :
    List (List (List Extent × Nat) × Nat) :=
  (plan.chunks interiorMax).zip interiorBids

def interiorEntry (q : List (List Extent × Nat) × Nat) : ExtentIdx :=
  ⟨firstKey (q.1.map leafEntry), q.2⟩

def StoredAt {α : Type} (image : Nat → Option Block) (c : Cell 4096 α) (depth bid : Nat)
    (entries : List α) : Prop :=
  ∃ b, image bid = some b ∧ Holds c depth b entries

def nodeBids (plan : List (List (List Extent × Nat) × Nat)) : List Nat :=
  plan.flatMap fun q => q.2 :: q.1.map Prod.snd

inductive Shaped (image : Nat → Option Block) (root : Buffer 60) (extents : List Extent) :
    List Nat → Prop
  | inline (hlen : extents.length ≤ inlineMax) (hroot : Holds (extentCell 60) 0 root extents) :
      Shaped image root extents []
  | leaves {leafBids : List Nat} (hlen : inlineMax < extents.length)
      (hcount : leafBids.length = (extents.chunks leafMax).length)
      (hfew : leafBids.length ≤ inlineMax)
      (hroot : Holds (idxCell 60) 1 root ((leafPlan extents leafBids).map leafEntry))
      (hleaves : ∀ p ∈ leafPlan extents leafBids, StoredAt image (extentCell 4096) 0 p.2 p.1) :
      Shaped image root extents leafBids
  | interiors {leafBids interiorBids : List Nat}
      (hcount : leafBids.length = (extents.chunks leafMax).length)
      (hmany : inlineMax < leafBids.length)
      (hinteriors : interiorBids.length = ((leafPlan extents leafBids).chunks interiorMax).length)
      (hroot : Holds (idxCell 60) 2 root
        ((interiorPlan (leafPlan extents leafBids) interiorBids).map interiorEntry))
      (hnodes : ∀ q ∈ interiorPlan (leafPlan extents leafBids) interiorBids,
        StoredAt image (idxCell 4096) 1 q.2 (q.1.map leafEntry))
      (hleaves : ∀ p ∈ leafPlan extents leafBids, StoredAt image (extentCell 4096) 0 p.2 p.1) :
      Shaped image root extents (nodeBids (interiorPlan (leafPlan extents leafBids) interiorBids))

variable {extents : List Extent} {leafBids interiorBids external : List Nat}
  {plan : List (List Extent × Nat)} {image image' : Nat → Option Block} {root : Buffer 60}

theorem leafMax_pos : 0 < leafMax := by decide

theorem interiorMax_pos : 0 < interiorMax := by decide

section

variable (hcount : leafBids.length = (extents.chunks leafMax).length)
include hcount

theorem flatMap_leafPlan :
    (leafPlan extents leafBids).flatMap Prod.fst = extents := by
  rw [leafPlan, flatMap_def, map_fst_zip (le_of_eq hcount.symm), chunks_flatten leafMax_pos]

theorem snd_leafPlan :
    (leafPlan extents leafBids).map Prod.snd = leafBids :=
  map_snd_zip (le_of_eq hcount)

end

section

variable (hcount : interiorBids.length = (plan.chunks interiorMax).length)

include hcount

theorem flatMap_interiorPlan :
    (interiorPlan plan interiorBids).flatMap Prod.fst = plan := by
  rw [interiorPlan, flatMap_def, map_fst_zip (le_of_eq hcount.symm), chunks_flatten interiorMax_pos]

theorem nodeBids_perm :
    (nodeBids (interiorPlan plan interiorBids)).Perm (plan.map Prod.snd ++ interiorBids) := by
  have hgen : ∀ l : List (List (List Extent × Nat) × Nat),
      (nodeBids l).Perm ((l.flatMap Prod.fst).map Prod.snd ++ l.map Prod.snd) := by
    intro l
    induction l with
    | nil => exact .nil
    | cons q l ih =>
      simp only [nodeBids, flatMap_cons, map_append, map_cons, append_assoc] at ih ⊢
      refine (List.Perm.cons _ (ih.append_left _)).trans ?_
      refine perm_middle.symm.trans ?_
      exact (perm_middle.symm).append_left _
  refine (hgen _).trans ?_
  rw [flatMap_interiorPlan hcount, interiorPlan, map_snd_zip (le_of_eq hcount)]

end

theorem StoredAt.congr {α : Type} {c : Cell 4096 α} {depth : Nat} {entries : List α}
    (h : StoredAt image c depth bid entries) (himage : image' bid = image bid) :
    StoredAt image' c depth bid entries := by
  obtain ⟨b, hb, hholds⟩ := h
  exact ⟨b, himage.trans hb, hholds⟩

theorem leaf_mem_nodeBids (hcount : interiorBids.length = (plan.chunks interiorMax).length)
    (hp : p ∈ plan) : p.2 ∈ nodeBids (interiorPlan plan interiorBids) :=
  (nodeBids_perm hcount).mem_iff.mpr (mem_append_left _ (mem_map_of_mem hp))

theorem Shaped.congr (h : Shaped image root extents external)
    (himage : ∀ b ∈ external, image' b = image b) : Shaped image' root extents external := by
  cases h with
  | inline hlen hroot => exact .inline hlen hroot
  | leaves hlen hcount hfew hroot hleaves =>
    refine .leaves hlen hcount hfew hroot fun p hp => (hleaves p hp).congr (himage _ ?_)
    exact (of_mem_zip hp).2
  | interiors hcount hmany hinteriors hroot hnodes hleaves =>
    refine .interiors hcount hmany hinteriors hroot (fun q hq => (hnodes q hq).congr (himage _ ?_))
      fun p hp => (hleaves p hp).congr (himage _ (leaf_mem_nodeBids hinteriors hp))
    exact mem_flatMap.mpr ⟨q, hq, mem_cons_self⟩

theorem length_leafPlan (hcount : leafBids.length = (extents.chunks leafMax).length) :
    (leafPlan extents leafBids).length = leafBids.length := by
  rw [leafPlan, length_zip, hcount, Nat.min_self]

theorem Shaped.count (h : Shaped image root extents external) :
    external.length = externalNodeCount extents.length := by
  unfold externalNodeCount
  cases h with
  | inline hlen hroot => rw [if_pos hlen, length_nil]
  | leaves hlen hcount hfew hroot hleaves =>
    rw [chunks_length leafMax_pos] at hcount
    rw [if_neg (not_le.mpr hlen), ← hcount]
    simp only [hfew, if_true, add_zero]
  | @interiors leafBids interiorBids hcount hmany hinteriors hroot hnodes hleaves =>
    have hplan := length_leafPlan hcount
    have hperm := (nodeBids_perm hinteriors).length_eq
    rw [chunks_length interiorMax_pos, hplan] at hinteriors
    rw [chunks_length leafMax_pos] at hcount
    have hlen : ¬extents.length ≤ inlineMax := fun hle => by
      have hlt : (extents.length + leafMax - 1) / leafMax ≤ inlineMax := by
        refine le_trans (Nat.div_le_div_right (Nat.sub_le_sub_right (Nat.add_le_add_right hle leafMax) 1)) ?_
        decide
      omega
    rw [if_neg hlen, ← hcount]
    simp only [not_le.mpr hmany, if_false]
    rw [← hinteriors, hperm, length_append, length_map, hplan]

end Shape

section Read

variable {fs : Fs} {extents : List Extent} {external : List Nat} {tree : ExtentTree} {ib : Nat} {depth n max : Nat}
  {b : Block} {chunk : List Extent} {e : Extent}

theorem Holds.header_eq {α : Type} {c : Cell n α} {b : Buffer n} {entries : List α} (h : Holds c depth b entries) :
    ∃ max, fromTrusted (.read b) = ⟨entries.length, max, depth⟩ := by
  obtain ⟨max, hmax⟩ := h.header
  exact ⟨max, fromTrusted_of_tryFrom hmax⟩

theorem readMetadataBlock_eq (h : fs.image bid = some b) :
    Fs.readMetadataBlock bid fs = (.ok b, fs) := by
  unfold Fs.readMetadataBlock
  rw [h]

theorem Holds.parseLeafNode (h : Holds (extentCell 4096) 0 b extents) :
    Ext4.parseLeafNode b = .ok extents := by
  obtain ⟨⟨max, hmax⟩, hroom, hcells⟩ := h
  unfold Ext4.parseLeafNode
  rw [hmax]
  simp only [isLeaf, decide_true, Bool.true_eq_false, if_false]
  rw [if_neg (not_lt.mpr hroom), hcells]

theorem Holds.parseInteriorNode (h : Holds (idxCell 4096) 1 b index) :
    Ext4.parseInteriorNode b = .ok (index.map ExtentIdx.leaf) := by
  obtain ⟨⟨max, hmax⟩, hroom, hcells⟩ := h
  unfold Ext4.parseInteriorNode
  rw [hmax]
  simp only [isLeaf, Nat.one_ne_zero, decide_false, Bool.false_eq_true, ne_eq,
    not_true_eq_false, or_self, if_false]
  rw [if_neg (not_lt.mpr hroom), hcells]

theorem readLeaves_eq {plan : List (List Extent × Nat)}
    (h : ∀ p ∈ plan, StoredAt fs.image (extentCell 4096) 0 p.2 p.1) :
    readLeaves (plan.map Prod.snd) fs = (.ok (plan.flatMap Prod.fst), fs) := by
  induction plan with
  | nil => rfl
  | cons p plan ih =>
    obtain ⟨b, hb, hholds⟩ := h p mem_cons_self
    have ih := ih fun q hq => h q (mem_cons_of_mem p hq)
    rw [map_cons, readLeaves, bind_ok (readMetadataBlock_eq hb),
      bind_ok (ofExcept_ok hholds.parseLeafNode fs), bind_ok ih]
    rfl

theorem leaf_leafEntry (plan : List (List Extent × Nat)) :
    (plan.map leafEntry).map ExtentIdx.leaf = plan.map Prod.snd := by
  rw [map_map]
  rfl

theorem readInteriors_eq {plan : List (List (List Extent × Nat) × Nat)}
    (hnodes : ∀ q ∈ plan, StoredAt fs.image (idxCell 4096) 1 q.2 (q.1.map leafEntry))
    (hleaves : ∀ p ∈ plan.flatMap Prod.fst, StoredAt fs.image (extentCell 4096) 0 p.2 p.1) :
    readInteriors (plan.map Prod.snd) fs =
      (.ok ((plan.flatMap Prod.fst).flatMap Prod.fst, nodeBids plan), fs) := by
  induction plan with
  | nil => rfl
  | cons q plan ih =>
    obtain ⟨b, hb, hholds⟩ := hnodes q mem_cons_self
    have ih := ih (fun r hr => hnodes r (mem_cons_of_mem q hr)) fun p hp =>
      hleaves p (by rw [flatMap_cons]; exact mem_append_right _ hp)
    have hread := readLeaves_eq fun p (hp : p ∈ q.1) =>
      hleaves p (by rw [flatMap_cons]; exact mem_append_left _ hp)
    have hparse := hholds.parseInteriorNode
    rw [leaf_leafEntry] at hparse
    rw [map_cons, readInteriors, bind_ok (readMetadataBlock_eq hb), bind_ok (ofExcept_ok hparse fs), bind_ok
      hread, bind_ok ih, flatMap_cons, flatMap_append]
    rfl

theorem flatten_eq (h : Shaped fs.image tree.root extents external) :
    tree.flatten fs = (.ok (extents, external), fs) := by
  unfold ExtentTree.flatten ExtentTree.header
  cases h with
  | inline hlen hroot =>
    obtain ⟨max, hmax⟩ := hroot.header_eq
    rw [hmax]
    simp only [isLeaf, decide_true, if_true]
    rw [hroot.cells]
    rfl
  | leaves hlen hcount hfew hroot hleaves =>
    obtain ⟨max, hmax⟩ := hroot.header_eq
    have hread := readLeaves_eq hleaves
    rw [flatMap_leafPlan hcount] at hread
    rw [hmax]
    simp only [isLeaf, Nat.one_ne_zero, decide_false, Bool.false_eq_true, if_false, ne_eq,
      not_true_eq_false, false_and, if_true]
    rw [hroot.cells, leaf_leafEntry, bind_ok hread, snd_leafPlan hcount]
    rfl
  | @interiors leafBids interiorBids hcount hmany hinteriors hroot hnodes hleaves =>
    obtain ⟨max, hmax⟩ := hroot.header_eq
    have hplan := flatMap_interiorPlan hinteriors
    have hread := readInteriors_eq hnodes (by rw [hplan]; exact hleaves)
    rw [hplan, flatMap_leafPlan hcount] at hread
    rw [hmax]
    simp only [isLeaf, OfNat.ofNat_ne_zero, decide_false, Bool.false_eq_true, if_false, ne_eq,
      not_true_eq_false, and_false, OfNat.ofNat_ne_one]
    rw [hroot.cells, map_map]
    exact hread

def Step.ofFind : Option Extent → Step
  | some e => .found e
  | none => .hole

theorem firstBlock_le (ho : Ordered chunk) (he : e ∈ chunk) :
    firstBlock chunk ≤ e.block := by
  cases chunk with
  | nil => cases he
  | cons a rest =>
    change a.block ≤ e.block
    rcases mem_cons.mp he with rfl | he
    · exact le_rfl
    · exact (pairwise_cons.mp ho.sorted).1 e he

theorem exists_firstBlock (hne : chunk ≠ []) :
    ∃ e ∈ chunk, firstBlock chunk = e.block := by
  cases chunk with
  | nil => exact absurd rfl hne
  | cons a rest => exact ⟨a, mem_cons_self, rfl⟩

theorem Extent.not_covers (h : e.stop ≤ ib ∨ ib < e.block) : e.covers ib = false := by
  unfold stop at h
  simp [covers]
  omega

theorem find?_window {front rest : List Extent} (hfront : ∀ e ∈ front, e.covers ib = false)
    (hrest : ∀ e ∈ rest, e.covers ib = false) :
    (front ++ (chunk ++ rest)).find? (fun e => e.covers ib) = chunk.find? fun e => e.covers ib := by
  have hnone : ∀ l : List Extent, (∀ e ∈ l, e.covers ib = false) → l.find? (fun e => e.covers ib) = none :=
    fun l hl => find?_eq_none.mpr fun e he => by simp [hl e he]
  rw [find?_append, find?_append, hnone front hfront, hnone rest hrest, Option.none_or, Option.or_none]

theorem scan_leaf (ho : Ordered chunk) :
    (match scanEntries Extent.block ib none chunk with
      | some e => if e.covers ib then Step.found e else .hole
      | none => .hole) = .ofFind (chunk.find? fun e => e.covers ib) := by
  rcases scanEntries_cases ib none ho.sorted with ⟨hall, heq⟩ | ⟨front, e, rest, rfl, heq, he, hrest⟩
  · rw [heq, find?_eq_none.mpr fun e he => by simp [Extent.not_covers (.inr (hall e he))]]
    rfl
  · have hpair := pairwise_append.mp ho
    have hfront : ∀ a ∈ front, a.covers ib = false := fun a ha =>
      Extent.not_covers (.inl (le_trans (hpair.2.2 a ha e mem_cons_self) he))
    have hwin : (front ++ ([e] ++ rest)).find? (fun a => a.covers ib) = [e].find? fun a => a.covers ib :=
      find?_window hfront fun a ha => Extent.not_covers (.inr (hrest a ha))
    rw [singleton_append] at hwin
    rw [heq, hwin]
    cases hcov : e.covers ib <;> simp [hcov, Step.ofFind]

theorem Holds.searchEntries_leaf {b : Buffer n} (h : Holds (extentCell n) 0 b chunk) (ho : Ordered chunk) :
    searchEntries ⟨chunk.length, max, 0⟩ b ib = .ok (.ofFind (chunk.find? fun e => e.covers ib)) := by
  unfold searchEntries
  rw [if_neg (not_lt.mpr h.room), h.cells, ← scan_leaf ho]
  simp only [isLeaf, decide_true, if_true]
  cases scanEntries Extent.block ib none chunk <;> rfl

def Step.ofIdx : Option ExtentIdx → Step
  | some idx => .descend idx.leaf
  | none => .hole

theorem Holds.searchEntries_index {b : Buffer n} (h : Holds (idxCell n) depth b index) (hdepth : depth ≠ 0) :
    searchEntries ⟨index.length, max, depth⟩ b ib =
      .ok (.ofIdx (scanEntries ExtentIdx.block ib none index)) := by
  unfold searchEntries
  rw [if_neg (not_lt.mpr h.room), h.cells]
  simp only [isLeaf, hdepth, decide_false, Bool.false_eq_true, if_false]
  cases scanEntries ExtentIdx.block ib none index <;> rfl

structure Ranked (plan : List (List Extent × Nat)) : Prop where
  nonempty : ∀ p ∈ plan, p.1 ≠ []
  ordered : ∀ p ∈ plan, Ordered p.1
  pairwise : plan.Pairwise fun p q => ∀ e ∈ p.1, e.stop ≤ firstBlock q.1

variable {plan : List (List Extent × Nat)}

theorem ranked_leafPlan {leafBids : List Nat} (ho : Ordered extents)
    (hcount : leafBids.length = (extents.chunks leafMax).length) : Ranked (leafPlan extents leafBids) := by
  have hne : ∀ p ∈ leafPlan extents leafBids, p.1 ≠ [] := fun p hp =>
    (mem_chunks leafMax_pos (of_mem_zip hp).1).1
  unfold Ordered at ho
  rw [← flatMap_leafPlan hcount, pairwise_flatMap] at ho
  refine ⟨hne, ho.1, ho.2.imp_of_mem fun {p q} hp hq hpq e he => ?_⟩
  obtain ⟨a, ha, hfirst⟩ := exists_firstBlock (hne q hq)
  rw [hfirst]
  exact hpq e he a ha

theorem Ranked.sorted (hr : Ranked plan) :
    plan.Pairwise fun p q => firstBlock p.1 ≤ firstBlock q.1 := by
  refine hr.pairwise.imp_of_mem fun {p q} hp hq hpq => ?_
  obtain ⟨a, ha, hfirst⟩ := exists_firstBlock (hr.nonempty p hp)
  rw [hfirst]
  exact le_trans (Nat.le_add_right _ _) (hpq a ha)

def scanPlan (ib : Nat) (plan : List (List Extent × Nat)) : Option (List Extent × Nat) :=
  scanEntries (fun p => firstBlock p.1) ib none plan

theorem Ranked.scan_none (hr : Ranked plan) (h : scanPlan ib plan = none) :
    (plan.flatMap Prod.fst).find? (fun e => e.covers ib) = none := by
  refine find?_eq_none.mpr fun e he => ?_
  obtain ⟨p, hp, he⟩ := mem_flatMap.mp he
  rcases scanEntries_cases ib none hr.sorted with ⟨hall, -⟩ | ⟨front, q, rest, -, heq, -⟩
  · have hle := firstBlock_le (hr.ordered p hp) he
    simp [Extent.not_covers (.inr (lt_of_lt_of_le (hall p hp) hle))]
  · rw [scanPlan, heq] at h
    cases h

theorem Ranked.scan_some (hr : Ranked plan) (h : scanPlan ib plan = some p) :
    p ∈ plan ∧ (plan.flatMap Prod.fst).find? (fun e => e.covers ib) =
      p.1.find? fun e => e.covers ib := by
  rcases scanEntries_cases ib none hr.sorted with ⟨-, heq⟩ | ⟨front, q, rest, rfl, heq, hq, hrest⟩
  · rw [scanPlan, heq] at h
    cases h
  · rw [scanPlan, heq] at h
    obtain rfl := Option.some.inj h
    have hpair := pairwise_append.mp hr.pairwise
    refine ⟨mem_append_right _ mem_cons_self, ?_⟩
    rw [flatMap_append, flatMap_cons]
    refine find?_window (fun e he => ?_) fun e he => ?_
    · obtain ⟨r, hr', he⟩ := mem_flatMap.mp he
      exact Extent.not_covers (.inl (le_trans (hpair.2.2 r hr' q mem_cons_self e he) hq))
    · obtain ⟨r, hr', he⟩ := mem_flatMap.mp he
      have hle := firstBlock_le (hr.ordered r (by simp [hr'])) he
      exact Extent.not_covers (.inr (lt_of_lt_of_le (hrest r hr') hle))

theorem scan_leafEntry (plan : List (List Extent × Nat)) :
    scanEntries ExtentIdx.block ib none (plan.map leafEntry) = (scanPlan ib plan).map leafEntry :=
  scanEntries_map leafEntry none plan

def interiorKey (q : List (List Extent × Nat) × Nat) : Nat := firstKey (q.1.map leafEntry)

theorem interiorKey_eq {q : List (List Extent × Nat) × Nat} (hne : q.1 ≠ []) :
    ∃ p rest, q.1 = p :: rest ∧ interiorKey q = firstBlock p.1 := by
  unfold interiorKey
  cases hq : q.1 with
  | nil => exact absurd hq hne
  | cons p rest => exact ⟨p, rest, rfl, rfl⟩

variable {nodes : List (List (List Extent × Nat) × Nat)}

theorem scan_interiors (ib : Nat) (hne : ∀ q ∈ nodes, q.1 ≠ [])
    (hsorted : (nodes.flatMap Prod.fst).Pairwise fun p q => firstBlock p.1 ≤ firstBlock q.1) :
    scanPlan ib (nodes.flatMap Prod.fst) =
      (scanEntries interiorKey ib none nodes).bind fun q => scanPlan ib q.1 := by
  have hpair := pairwise_flatMap.mp hsorted
  have hkeys : nodes.Pairwise fun a b => interiorKey a ≤ interiorKey b := by
    refine hpair.2.imp_of_mem fun {a b} ha hb hab => ?_
    obtain ⟨p, rest, hp, hkey⟩ := interiorKey_eq (hne a ha)
    obtain ⟨p', rest', hp', hkey'⟩ := interiorKey_eq (hne b hb)
    rw [hkey, hkey']
    exact hab p (by simp [hp]) p' (by simp [hp'])
  have hle : ∀ q ∈ nodes, ∀ p ∈ q.1, interiorKey q ≤ firstBlock p.1 := by
    intro q hq p hp
    obtain ⟨a, rest, ha, hkey⟩ := interiorKey_eq (hne q hq)
    have hord := hpair.1 q hq
    rw [hkey]
    rw [ha] at hord hp
    rcases mem_cons.mp hp with rfl | hp
    · exact le_rfl
    · exact (pairwise_cons.mp hord).1 p hp
  rcases scanEntries_cases ib none hkeys with ⟨hall, heq⟩ | ⟨front, q, rest, hsplit, heq, hq, hrest⟩
  · rw [heq, Option.bind_none]
    rcases scanEntries_cases ib none hsorted with ⟨-, hnone⟩ | ⟨a, p, b, hflat, -, hp, -⟩
    · exact hnone
    · have hmem : p ∈ nodes.flatMap Prod.fst := by simp [hflat]
      obtain ⟨q, hq, hpq⟩ := mem_flatMap.mp hmem
      have := hall q hq
      have := hle q hq p hpq
      omega
  · have hmem : q ∈ nodes := by simp [hsplit]
    rw [heq, Option.bind_some]
    rcases scanEntries_cases ib none (hpair.1 q hmem) with
      ⟨hall, -⟩ | ⟨inner, p, outer, hinner, hscan, hp, houter⟩
    · obtain ⟨p, tail, hhead, hkey⟩ := interiorKey_eq (hne q hmem)
      have := hall p (by simp [hhead])
      omega
    · rw [scanPlan, scanPlan, hscan]
      have hflat : nodes.flatMap Prod.fst =
          (front.flatMap Prod.fst ++ inner) ++ p :: (outer ++ rest.flatMap Prod.fst) := by
        rw [hsplit, flatMap_append, flatMap_cons, hinner]
        simp
      rw [hflat] at hsorted ⊢
      refine scanEntries_split none (fun a ha => ?_) hp fun a ha => ?_
      · exact le_trans ((pairwise_append.mp hsorted).2.2 a ha p mem_cons_self) hp
      · rcases mem_append.mp ha with ha | ha
        · exact houter a ha
        · obtain ⟨r, hr, ha⟩ := mem_flatMap.mp ha
          exact lt_of_lt_of_le (hrest r hr) (hle r (by simp [hsplit, hr]) a ha)

theorem StoredAt.search_leaf (ho : Ordered chunk) (h : StoredAt fs.image (extentCell 4096) 0 bid chunk)
    (fuel : Nat) :
    descend ib (fuel + 1) (.descend bid) fs =
      (.ok (chunk.find? fun e => e.covers ib), fs) := by
  obtain ⟨b, hb, hholds⟩ := h
  obtain ⟨max, hmax⟩ := hholds.header
  have hsearch : searchNode b ib = .ok (.ofFind (chunk.find? fun e => e.covers ib)) := by
    unfold searchNode
    rw [hmax]
    exact hholds.searchEntries_leaf ho
  rw [descend, bind_ok (readMetadataBlock_eq hb), bind_ok (ofExcept_ok hsearch fs)]
  cases chunk.find? fun e => e.covers ib <;> cases fuel <;> rfl

theorem Ranked.descend (hr : Ranked plan) (ib : Nat)
    (hleaves : ∀ p ∈ plan, StoredAt fs.image (extentCell 4096) 0 p.2 p.1) (fuel : Nat) :
    descend ib (fuel + 1) (.ofIdx ((scanPlan ib plan).map leafEntry)) fs =
      (.ok ((plan.flatMap Prod.fst).find? fun e => e.covers ib), fs) := by
  cases hscan : scanPlan ib plan with
  | none =>
    rw [hr.scan_none hscan]
    rfl
  | some p =>
    obtain ⟨hp, hfind⟩ := hr.scan_some hscan
    rw [hfind]
    exact (hleaves p hp).search_leaf (hr.ordered p hp) fuel

theorem StoredAt.search_interior (h : StoredAt fs.image (idxCell 4096) 1 bid (plan.map leafEntry)) (fuel : Nat) :
    descend ib (fuel + 1) (.descend bid) fs =
      descend ib fuel (.ofIdx ((scanPlan ib plan).map leafEntry)) fs := by
  obtain ⟨b, hb, hholds⟩ := h
  obtain ⟨max, hmax⟩ := hholds.header
  have hsearch : searchNode b ib = .ok (.ofIdx ((scanPlan ib plan).map leafEntry)) := by
    unfold searchNode
    rw [hmax, ← scan_leafEntry]
    exact hholds.searchEntries_index (by decide)
  rw [descend, bind_ok (readMetadataBlock_eq hb), bind_ok (ofExcept_ok hsearch fs)]

theorem lookup_eq (h : Shaped fs.image tree.root extents external) (ho : Ordered extents) (ib : Nat) :
    tree.lookup ib fs = (.ok (extents.find? fun e => e.covers ib), fs) := by
  unfold ExtentTree.lookup ExtentTree.header
  cases h with
  | inline hlen hroot =>
    obtain ⟨max, hmax⟩ := hroot.header_eq
    rw [hmax, bind_ok (ofExcept_ok (hroot.searchEntries_leaf ho) fs)]
    cases extents.find? fun e => e.covers ib <;> rfl
  | leaves hlen hcount hfew hroot hleaves =>
    obtain ⟨max, hmax⟩ := hroot.header_eq
    rw [hmax, bind_ok (ofExcept_ok (hroot.searchEntries_index (by decide)) fs), scan_leafEntry]
    have hdescend := (ranked_leafPlan ho hcount).descend ib hleaves 4
    rw [flatMap_leafPlan hcount] at hdescend
    exact hdescend
  | @interiors leafBids interiorBids hcount hmany hinteriors hroot hnodes hleaves =>
    obtain ⟨max, hmax⟩ := hroot.header_eq
    have hr := ranked_leafPlan ho hcount
    have hflat := flatMap_interiorPlan hinteriors
    have hne : ∀ q ∈ interiorPlan (leafPlan extents leafBids) interiorBids, q.1 ≠ [] := fun q hq =>
      (mem_chunks interiorMax_pos (of_mem_zip hq).1).1
    have hscan := scan_interiors ib hne (by rw [hflat]; exact hr.sorted)
    rw [hflat] at hscan
    have hroot_scan : scanEntries ExtentIdx.block ib none
        ((interiorPlan (leafPlan extents leafBids) interiorBids).map interiorEntry) =
        (scanEntries interiorKey ib none
          (interiorPlan (leafPlan extents leafBids) interiorBids)).map interiorEntry :=
      scanEntries_map interiorEntry none _
    have hdescend := hr.descend ib hleaves 3
    rw [flatMap_leafPlan hcount, hscan] at hdescend
    rw [hmax, bind_ok (ofExcept_ok (hroot.searchEntries_index (by decide)) fs), hroot_scan,
      ← hdescend]
    cases hq : scanEntries interiorKey ib none (interiorPlan (leafPlan extents leafBids) interiorBids) with
    | none => rfl
    | some q =>
      have hmem : q ∈ interiorPlan (leafPlan extents leafBids) interiorBids := by
        simpa using scanEntries_mem hq
      exact (hnodes q hmem).search_interior 4

end Read

end Ext4
