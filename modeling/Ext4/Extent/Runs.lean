import Ext4.Extent.Manager

namespace Ext4

open List Extent

variable {a b : Extent} {P : Extent → Prop}

abbrev Binding : Type := Nat × Nat × ExtentKind

namespace Extent

variable {lo hi : Nat}

def cells (e : Extent) : List Binding :=
  (List.range e.len).map fun i => (e.block + i, e.start + i, e.kind)

def stop (e : Extent) : Nat := e.block + e.len

structure Valid (e : Extent) : Prop extends Encodable e where
  stop_le : e.stop ≤ 2 ^ 32 - 1
  end_le : e.start + e.len ≤ 2 ^ 48

instance (e : Extent) : Decidable e.Valid :=
  decidable_of_iff ((0 < e.len ∧ e.block < 2 ^ 32 ∧ e.start < 2 ^ 48 ∧
      e.len ≤ if e.isUnwritten then maxUnwrittenLen else maxWrittenLen) ∧
      e.stop ≤ 2 ^ 32 - 1 ∧ e.start + e.len ≤ 2 ^ 48)
    ⟨fun h => ⟨⟨h.1.1, h.1.2.1, h.1.2.2.1, h.1.2.2.2⟩, h.2.1, h.2.2⟩,
      fun h => ⟨⟨h.pos, h.block_lt, h.start_lt, h.len_le⟩, h.stop_le, h.end_le⟩⟩

variable {e : Extent} {ib : Nat}

theorem mem_cells {x : Binding} :
    x ∈ e.cells ↔ e.covers x.1 = true ∧ x.2.1 = e.start + (x.1 - e.block) ∧ x.2.2 = e.kind := by
  obtain ⟨ib, p, k⟩ := x
  simp only [cells, covers, mem_map, mem_range, Prod.mk.injEq, Bool.and_eq_true, decide_eq_true_eq]
  constructor
  · rintro ⟨i, hi, rfl, rfl, rfl⟩
    exact ⟨⟨by omega, by omega⟩, by omega, rfl⟩
  · rintro ⟨⟨hlo, hhi⟩, rfl, rfl⟩
    exact ⟨ib - e.block, by omega, by omega, rfl, rfl⟩

theorem cells_append (block l l' start : Nat) (kind : ExtentKind) :
    cells ⟨block, l + l', start, kind⟩ =
      cells ⟨block, l, start, kind⟩ ++ cells ⟨block + l, l', start + l, kind⟩ := by
  simp only [cells, range_add, map_append, map_map]
  refine congrArg (_ ++ ·) (map_congr_left fun i _ => ?_)
  simp [add_assoc]

@[simp] theorem length_cells (e : Extent) : e.cells.length = e.len := by simp [cells]

@[simp] theorem cells_empty (block start : Nat) (kind : ExtentKind) :
    cells ⟨block, 0, start, kind⟩ = [] := rfl

def piece (e : Extent) (lo hi : Nat) : Extent := ⟨lo, hi - lo, e.start + (lo - e.block), e.kind⟩

theorem piece_self (e : Extent) : e.piece e.block e.stop = e := by
  simp [piece, stop]

theorem cells_piece {mid : Nat} (hb : e.block ≤ lo) (hl : lo ≤ mid) (hm : mid ≤ hi) :
    (e.piece lo hi).cells = (e.piece lo mid).cells ++ (e.piece mid hi).cells := by
  have hlen : hi - lo = mid - lo + (hi - mid) := by omega
  have hmid : lo + (mid - lo) = mid := by omega
  have hstart : e.start + (lo - e.block) + (mid - lo) = e.start + (mid - e.block) := by omega
  unfold piece
  rw [hlen, cells_append, hmid, hstart]

theorem mem_cells_piece (hb : e.block ≤ lo) {x : Binding} :
    x ∈ (e.piece lo hi).cells ↔
      lo ≤ x.1 ∧ x.1 < hi ∧ x.2.1 = e.start + (x.1 - e.block) ∧ x.2.2 = e.kind := by
  rw [mem_cells]
  unfold piece covers
  simp only [Bool.and_eq_true, decide_eq_true_eq]
  constructor
  · rintro ⟨⟨hlo, hhi⟩, hstart, hkind⟩
    exact ⟨hlo, by omega, by omega, hkind⟩
  · rintro ⟨hlo, hhi, hstart, hkind⟩
    exact ⟨⟨hlo, by omega⟩, by omega, hkind⟩

theorem Valid.piece (he : e.Valid) (hb : e.block ≤ lo) (hlt : lo < hi)
    (hs : hi ≤ e.stop) : (e.piece lo hi).Valid := by
  obtain ⟨⟨hpos, hblock, hstart, hlen⟩, hstop, hend⟩ := he
  unfold Extent.stop at hs hstop
  refine ⟨⟨?_, ?_, ?_, le_trans ?_ hlen⟩, ?_, ?_⟩ <;> simp only [Extent.piece, Extent.stop] <;>
    omega

end Extent

def contents (extents : List Extent) : List Binding := extents.flatMap Extent.cells

def keys (extents : List Extent) : List Nat := (contents extents).map fun x => x.1

def dataBlocks (extents : List Extent) : List Nat := (contents extents).map fun x => x.2.1

variable {extents others : List Extent} {e last : Extent} {x : Binding}

@[simp] theorem contents_nil : contents [] = [] := rfl

@[simp] theorem contents_cons (e : Extent) (extents : List Extent) :
    contents (e :: extents) = e.cells ++ contents extents := rfl

@[simp] theorem contents_append (extents others : List Extent) :
    contents (extents ++ others) = contents extents ++ contents others := by
  simp [contents]

theorem contents_perm (h : extents.Perm others) : (contents extents).Perm (contents others) :=
  h.flatMap_right _

theorem mem_contents : x ∈ contents extents ↔ ∃ e ∈ extents, x ∈ e.cells := by
  simp [contents]

theorem length_contents (extents : List Extent) : (contents extents).length = totalLen extents := by
  induction extents with
  | nil => rfl
  | cons e rest ih => simp [ih, totalLen]

structure Sound (extents : List Extent) : Prop where
  valid : ∀ e ∈ extents, e.Valid
  nodup : (keys extents).Nodup

instance (extents : List Extent) : Decidable (Sound extents) :=
  decidable_of_iff ((∀ e ∈ extents, e.Valid) ∧ (keys extents).Nodup)
    ⟨fun h => ⟨h.1, h.2⟩, fun h => ⟨h.valid, h.nodup⟩⟩

theorem Sound.perm (hs : Sound extents) (h : extents.Perm others) : Sound others :=
  ⟨fun e he => hs.valid e (h.mem_iff.mpr he), ((contents_perm h).map _).nodup_iff.mp hs.nodup⟩

theorem Sound.unique (hs : Sound extents) {ib : Nat} (ha : a ∈ extents) (hb : b ∈ extents)
    (hca : a.covers ib = true) (hcb : b.covers ib = true) : a = b := by
  obtain ⟨-, hnodup⟩ := hs
  induction extents with
  | nil => cases ha
  | cons e rest ih =>
    unfold keys at hnodup
    rw [contents_cons, map_append] at hnodup
    obtain ⟨-, hrest, hdisj⟩ := nodup_append.mp hnodup
    have hkey : ∀ c : Extent, c.covers ib = true → ib ∈ c.cells.map fun x => x.1 := fun c hc =>
      mem_map.mpr ⟨(ib, c.start + (ib - c.block), c.kind), mem_cells.mpr ⟨hc, rfl, rfl⟩, rfl⟩
    have hin : ∀ c ∈ rest, c.covers ib = true → ib ∈ (contents rest).map fun x => x.1 :=
      fun c hc hcov => by
        obtain ⟨x, hx, rfl⟩ := mem_map.mp (hkey c hcov)
        exact mem_map.mpr ⟨x, mem_contents.mpr ⟨c, hc, hx⟩, rfl⟩
    rcases mem_cons.mp ha with hae | ha' <;> rcases mem_cons.mp hb with hbe | hb'
    · rw [hae, hbe]
    · exact absurd rfl (hdisj ib (hkey e (hae ▸ hca)) ib (hin b hb' hcb))
    · exact absurd rfl (hdisj ib (hkey e (hbe ▸ hcb)) ib (hin a ha' hca))
    · exact ih ha' hb' hrest

theorem Sound.find? (hs : Sound extents) {ib : Nat} :
    extents.find? (fun e => e.covers ib) = some e ↔ e ∈ extents ∧ e.covers ib = true := by
  constructor
  · intro h
    have hcov := find?_some h
    exact ⟨mem_of_find?_eq_some h, hcov⟩
  · rintro ⟨he, hcov⟩
    cases h : extents.find? fun e => e.covers ib with
    | none => exact absurd hcov (find?_eq_none.mp h e he)
    | some a =>
      have hcova := find?_some h
      rw [hs.unique (mem_of_find?_eq_some h) he hcova hcov]

def Ordered (extents : List Extent) : Prop := extents.Pairwise fun a b => a.stop ≤ b.block

instance (extents : List Extent) : Decidable (Ordered extents) :=
  inferInstanceAs (Decidable (extents.Pairwise fun a b => a.stop ≤ b.block))

theorem Sound.ordered (hs : Sound extents)
    (hsorted : extents.Pairwise fun a b => a.block ≤ b.block) : Ordered extents := by
  obtain ⟨hvalid, hnodup⟩ := hs
  induction extents with
  | nil => exact .nil
  | cons e rest ih =>
    obtain ⟨hhead, hrest⟩ := pairwise_cons.mp hsorted
    have hs' : Sound (e :: rest) := ⟨hvalid, hnodup⟩
    unfold keys at hnodup
    rw [contents_cons, map_append] at hnodup
    have htail := (nodup_append.mp hnodup).2.1
    refine pairwise_cons.mpr ⟨fun b hb => ?_, ih hrest (fun b hb =>
      hvalid b (mem_cons_of_mem e hb)) htail⟩
    have hle := hhead b hb
    have hpos := (hvalid b (mem_cons_of_mem e hb)).pos
    by_contra hlt
    have hcov : e.covers b.block = true := by
      unfold Extent.stop at hlt
      simp [covers]
      omega
    have hcov' : b.covers b.block = true := by
      simp [covers]
      omega
    obtain rfl := hs'.unique mem_cons_self (mem_cons_of_mem e hb) hcov hcov'
    have hmem : e.block ∈ e.cells.map fun x => x.1 := mem_map.mpr
      ⟨(e.block, e.start, e.kind), mem_cells.mpr ⟨hcov, by simp, rfl⟩, rfl⟩
    have hmem' : e.block ∈ (contents rest).map fun x => x.1 := by
      obtain ⟨x, hx, hkey⟩ := mem_map.mp hmem
      exact mem_map.mpr ⟨x, mem_contents.mpr ⟨e, hb, hx⟩, hkey⟩
    exact (nodup_append.mp hnodup).2.2 _ hmem _ hmem' rfl

theorem sortByBlock_perm (extents : List Extent) : (sortByBlock extents).Perm extents :=
  mergeSort_perm _ _

theorem sortByBlock_sorted (extents : List Extent) :
    (sortByBlock extents).Pairwise fun a b => a.block ≤ b.block := by
  have h : (sortByBlock extents).Pairwise fun a b => decide (a.block ≤ b.block) = true :=
    pairwise_mergeSort (fun a b c hab hbc => by simp at *; omega) (fun a b => by simp; omega)
      extents
  simpa using h

theorem Sound.sortByBlock (hs : Sound extents) : Ordered (Ext4.sortByBlock extents) :=
  (hs.perm (sortByBlock_perm extents).symm).ordered (sortByBlock_sorted extents)

theorem Ordered.sorted (h : Ordered extents) : extents.Pairwise fun a b => a.block ≤ b.block :=
  h.imp fun hab => le_trans (Nat.le_add_right _ _) hab

theorem Ordered.sortByBlock (h : Ordered extents) : Ext4.sortByBlock extents = extents :=
  mergeSort_of_pairwise (h.sorted.imp fun hab => by simpa using hab)

theorem Sound.eq_of_block (hs : Sound extents) (ha : a ∈ extents) (hb : b ∈ extents)
    (hab : a.block = b.block) : a = b := by
  have hpos := (hs.valid a ha).pos
  have hpos' := (hs.valid b hb).pos
  have hca : a.covers a.block = true := by simp [covers, hpos]
  have hcb : b.covers a.block = true := by simp [covers, hab, hpos']
  exact hs.unique ha hb hca hcb

theorem Ordered.sortByBlock_eq {sorted : List Extent} (ho : Ordered sorted) (hs : Sound sorted)
    (hperm : extents.Perm sorted) : Ext4.sortByBlock extents = sorted := by
  have hall := (sortByBlock_perm extents).trans hperm
  refine List.Perm.eq_of_pairwise (fun a b ha hb hab hba => ?_) (sortByBlock_sorted extents) ho.sorted hall
  exact hs.eq_of_block (hall.mem_iff.mp ha) hb (le_antisymm hab hba)

theorem Extent.contiguous_iff : a.contiguous b = true ↔
    a.block + a.len = b.block ∧ a.start + a.len = b.start ∧ a.kind = b.kind ∧
      a.len + b.len ≤ a.maxLen := by
  obtain ⟨_, _, _, ka⟩ := a
  obtain ⟨_, _, _, kb⟩ := b
  cases ka <;> cases kb <;> simp [contiguous, isUnwritten, and_assoc]

theorem contents_mergeInto (last : Extent) (rest : List Extent) :
    contents (mergeInto last rest) = last.cells ++ contents rest := by
  induction rest generalizing last with
  | nil => simp [mergeInto]
  | cons e rest ih =>
    unfold mergeInto
    split
    next hc =>
      obtain ⟨hblock, hstart, hkind, -⟩ := contiguous_iff.mp hc
      have he : e = ⟨last.block + last.len, e.len, last.start + last.len, last.kind⟩ := by
        rw [hblock, hstart, hkind]
      rw [ih, cells_append, contents_cons, append_assoc]
      rw [← he]
    next => rw [contents_cons, ih, contents_cons]

theorem contents_mergeRuns (extents : List Extent) : contents (mergeRuns extents) = contents extents := by
  cases extents with
  | nil => rfl
  | cons e rest => exact contents_mergeInto e rest

theorem contents_mergeExtents (extents : List Extent) :
    (contents (mergeExtents extents)).Perm (contents extents) := by
  rw [mergeExtents, contents_mergeRuns]
  exact contents_perm (sortByBlock_perm extents)

theorem blocks_mergeInto (last : Extent) (rest : List Extent) :
    ((mergeInto last rest).map block).Sublist (last.block :: rest.map block) := by
  induction rest generalizing last with
  | nil => exact .refl _
  | cons e rest ih =>
    unfold mergeInto
    split
    · exact (ih _).trans (.cons_cons _ (.cons _ (.refl _)))
    · exact .cons_cons _ (ih e)

section

variable (hmerge : ∀ a e, P a → P e → a.contiguous e = true → P ⟨a.block, a.len + e.len, a.start, a.kind⟩)

include hmerge

theorem forall_mergeInto
    {rest : List Extent} (hlast : P last) (hrest : ∀ e ∈ rest, P e) : ∀ e ∈ mergeInto last rest, P e := by
  induction rest generalizing last with
  | nil => simpa [mergeInto] using hlast
  | cons e rest ih =>
    obtain ⟨he, hrest'⟩ := forall_mem_cons.mp hrest
    unfold mergeInto
    split
    next hc => exact ih (hmerge last e hlast he hc) hrest'
    next =>
      intro a ha
      rcases mem_cons.mp ha with rfl | ha
      · exact hlast
      · exact ih he hrest' a ha

theorem forall_mergeExtents (h : ∀ e ∈ extents, P e) : ∀ e ∈ mergeExtents extents, P e := by
  have hsorted : ∀ e ∈ sortByBlock extents, P e := fun e he => h e ((sortByBlock_perm extents).mem_iff.mp he)
  unfold mergeExtents
  cases hsort : sortByBlock extents with
  | nil => simp [mergeRuns]
  | cons e rest =>
    rw [hsort] at hsorted
    exact forall_mergeInto hmerge (hsorted e mem_cons_self) fun a ha =>
      hsorted a (mem_cons_of_mem e ha)

end

theorem length_mergeExtents_le (extents : List Extent) : (mergeExtents extents).length ≤ extents.length := by
  rw [← (sortByBlock_perm extents).length_eq]
  unfold mergeExtents
  cases sortByBlock extents with
  | nil => exact le_refl 0
  | cons e rest =>
    have hsub := (blocks_mergeInto e rest).length_le
    simpa only [mergeRuns, length_map, length_cons] using hsub

theorem Extent.Valid.merge (ha : a.Valid) (he : e.Valid) (hc : a.contiguous e = true) :
    Valid ⟨a.block, a.len + e.len, a.start, a.kind⟩ := by
  obtain ⟨hblock, hstart, -, hlen⟩ := contiguous_iff.mp hc
  refine ⟨⟨Nat.add_pos_left ha.pos _, ha.block_lt, ha.start_lt, hlen⟩, ?_, ?_⟩
  · have hstop := he.stop_le
    unfold Extent.stop at hstop ⊢
    simp only
    omega
  · have hend := he.end_le
    simp only
    omega

theorem Sound.mergeExtents (hs : Sound extents) :
    Sound (Ext4.mergeExtents extents) ∧ Ordered (Ext4.mergeExtents extents) := by
  have hsound : Sound (Ext4.mergeExtents extents) := by
    refine ⟨forall_mergeExtents (fun a e ha he hc => ha.merge he hc) hs.valid, ?_⟩
    exact ((contents_mergeExtents extents).map _).nodup_iff.mpr hs.nodup
  refine ⟨hsound, hsound.ordered (pairwise_map.mp ?_)⟩
  have hsorted := pairwise_map.mpr (sortByBlock_sorted extents)
  unfold Ext4.mergeExtents
  cases hsort : Ext4.sortByBlock extents with
  | nil => simp [mergeRuns]
  | cons e rest =>
    rw [hsort] at hsorted
    exact hsorted.sublist (blocks_mergeInto e rest)

theorem Sound.of_keys (hs : Sound extents) (hvalid : ∀ e ∈ others, e.Valid)
    (hkeys : (keys others).Subperm (keys extents)) : Sound others := by
  obtain ⟨l, hperm, hsub⟩ := hkeys
  exact ⟨hvalid, hperm.nodup_iff.mp (hs.nodup.sublist hsub)⟩

end Ext4
