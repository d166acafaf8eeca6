import Ext4.Extent.Runs

namespace Ext4

open List Extent

variable {extents kept freed : List Extent} {e : Extent} {x : Binding} {lo hi : Nat} {f : Extent → List Extent}
  {c k : Nat}

def inRange (lo hi : Nat) (x : Binding) : Bool := lo ≤ x.1 && x.1 < hi

def mark (lo hi : Nat) (x : Binding) : Binding :=
  if inRange lo hi x then (x.1, x.2.1, .written) else x

theorem inRange_iff : inRange lo hi x = true ↔ lo ≤ x.1 ∧ x.1 < hi := by simp [inRange]

namespace Extent

theorem cells_thirds {a b : Nat} (ha : e.block ≤ a) (hab : a ≤ b) (hb : b ≤ e.stop) :
    e.cells = (e.piece e.block a).cells ++ ((e.piece a b).cells ++ (e.piece b e.stop).cells) := by
  rw [← cells_piece ha hab hb, ← cells_piece le_rfl ha (le_trans hab hb), piece_self]

theorem contents_head (e : Extent) (lo : Nat) :
    contents (if e.block < lo then [⟨e.block, lo - e.block, e.start, e.kind⟩] else []) =
      (e.piece e.block (max e.block lo)).cells := by
  split_ifs with h
  · rw [max_eq_right (le_of_lt h)]
    simp [piece]
  · rw [max_eq_left (not_lt.mp h)]
    simp [piece]

theorem contents_tail (e : Extent) (hi : Nat) :
    contents (if hi < e.block + e.len then
      [⟨hi, e.block + e.len - hi, e.start + (hi - e.block), e.kind⟩] else []) =
      (e.piece (min e.stop hi) e.stop).cells := by
  unfold stop
  split_ifs with h
  · rw [min_eq_right (le_of_lt h)]
    simp [piece]
  · rw [min_eq_left (not_lt.mp h)]
    simp [piece]

structure Meets (e : Extent) (lo hi a b : Nat) : Prop where
  first : a = max e.block lo
  last : b = min e.stop hi
  lt : a < b

theorem Meets.of_not_outside (h : e.outside lo hi = false) (hpos : 0 < e.len) (hlt : lo < hi) :
    e.Meets lo hi (max e.block lo) (min e.stop hi) := by
  simp only [outside, Bool.or_eq_false_iff, decide_eq_false_iff_not] at h
  refine ⟨rfl, rfl, ?_⟩
  unfold stop
  omega

variable {a b : Nat}

section

variable (h : e.Meets lo hi a b)

include h

theorem Meets.cells :
    e.cells = (e.piece e.block a).cells ++ ((e.piece a b).cells ++ (e.piece b e.stop).cells) :=
  cells_thirds (by have := h.first; omega) (le_of_lt h.lt) (by have := h.last; omega)

theorem Meets.below (hx : x ∈ (e.piece e.block a).cells) :
    inRange lo hi x = false := by
  obtain ⟨hlo, hhi, -⟩ := (mem_cells_piece le_rfl).mp hx
  rw [Bool.eq_false_iff, Ne, inRange_iff]
  have := h.first
  omega

theorem Meets.inside (hx : x ∈ (e.piece a b).cells) :
    inRange lo hi x = true := by
  have hfirst := h.first
  have hlast := h.last
  obtain ⟨hlo, hhi, -⟩ := (mem_cells_piece (by omega)).mp hx
  rw [inRange_iff]
  omega

theorem Meets.above (hx : x ∈ (e.piece b e.stop).cells) :
    inRange lo hi x = false := by
  have hfirst := h.first
  have hlast := h.last
  have hlt := h.lt
  obtain ⟨hlo, hhi, -⟩ := (mem_cells_piece (by omega)).mp hx
  rw [Bool.eq_false_iff, Ne, inRange_iff]
  omega

end

theorem outside_cells (h : e.outside lo hi = true) (hx : x ∈ e.cells) : inRange lo hi x = false := by
  simp only [outside, Bool.or_eq_true, decide_eq_true_eq] at h
  have hcov := (mem_cells.mp hx).1
  simp only [covers, Bool.and_eq_true, decide_eq_true_eq] at hcov
  rw [Bool.eq_false_iff, Ne, inRange_iff]
  omega

theorem contents_punchKept (hpos : 0 < e.len) (hlt : lo < hi) :
    contents (e.punchKept lo hi) = e.cells.filter fun x => !inRange lo hi x := by
  unfold punchKept
  split
  next hout =>
    rw [filter_eq_self.mpr fun x hx => by simp [outside_cells hout hx]]
    simp
  next hin =>
    have hm := Meets.of_not_outside (Bool.eq_false_iff.mpr hin) hpos hlt
    rw [hm.cells, filter_append, filter_append,
      filter_eq_self.mpr fun x hx => by simp [hm.below hx],
      filter_eq_nil_iff.mpr fun x hx => by simp [hm.inside hx],
      filter_eq_self.mpr fun x hx => by simp [hm.above hx], nil_append, contents_append,
      contents_head, contents_tail]

theorem contents_punchDoomed (hpos : 0 < e.len) (hlt : lo < hi) :
    contents (e.punchDoomed lo hi) = e.cells.filter (inRange lo hi) := by
  unfold punchDoomed
  split
  next hout =>
    rw [filter_eq_nil_iff.mpr fun x hx => by simp [outside_cells hout hx]]
    rfl
  next hin =>
    have hm := Meets.of_not_outside (Bool.eq_false_iff.mpr hin) hpos hlt
    rw [hm.cells, filter_append, filter_append,
      filter_eq_nil_iff.mpr fun x hx => by simp [hm.below hx],
      filter_eq_self.mpr fun x hx => hm.inside hx,
      filter_eq_nil_iff.mpr fun x hx => by simp [hm.above hx], append_nil, nil_append]
    exact append_nil _

theorem cells_mark (e : Extent) (h : ∀ x ∈ e.cells, inRange lo hi x = false) :
    e.cells.map (mark lo hi) = e.cells :=
  (map_congr_left fun x hx => by simp [mark, h x hx]).trans (map_id _)

theorem cells_marked (e : Extent) (h : ∀ x ∈ e.cells, inRange lo hi x = true) :
    e.cells.map (mark lo hi) = cells ⟨e.block, e.len, e.start, .written⟩ := by
  have hmap : e.cells.map (mark lo hi) = e.cells.map fun x => (x.1, x.2.1, .written) :=
    map_congr_left fun x hx => by simp [mark, h x hx]
  rw [hmap]
  simp [cells, Function.comp_def]

theorem contents_convert (hpos : 0 < e.len) (hlt : lo < hi) :
    contents (e.convert lo hi) = e.cells.map (mark lo hi) := by
  obtain ⟨block, len, start, kind⟩ := e
  cases kind with
  | written =>
    have hmark : (cells ⟨block, len, start, .written⟩).map (mark lo hi) =
        cells ⟨block, len, start, .written⟩ := by
      refine (map_congr_left fun x hx => ?_).trans (map_id _)
      obtain ⟨-, -, hkind⟩ := mem_cells.mp hx
      obtain ⟨ib, p, k⟩ := x
      obtain rfl : k = .written := hkind
      simp [mark]
    simp [convert, isUnwritten, hmark]
  | unwritten =>
    unfold convert
    split
    next hout =>
      rw [cells_mark _ fun x hx => outside_cells (by simpa [outside, isUnwritten] using hout) hx]
      simp
    next hin =>
      have hm := Meets.of_not_outside (e := ⟨block, len, start, .unwritten⟩)
        (by simpa [outside, isUnwritten] using hin) hpos hlt
      rw [hm.cells, map_append, map_append, cells_mark _ fun x hx => hm.below hx, cells_marked _ fun x hx =>
        hm.inside hx, cells_mark _ fun x hx => hm.above hx, contents_append, contents_append, append_assoc]
      have hhead := contents_head ⟨block, len, start, .unwritten⟩ (max block lo)
      have htail := contents_tail ⟨block, len, start, .unwritten⟩
        (min (stop ⟨block, len, start, .unwritten⟩) hi)
      rw [max_eq_right (le_max_left _ _)] at hhead
      rw [min_eq_right (min_le_left _ _)] at htail
      refine congrArg₂ (· ++ ·) hhead (congrArg₂ (· ++ ·) ?_ htail)
      exact append_nil _

end Extent

theorem contents_flatMap (extents : List Extent) (f : Extent → List Extent) :
    contents (extents.flatMap f) = extents.flatMap fun e => contents (f e) := by
  simp [contents, flatMap_assoc]

theorem contents_filtered {p : Binding → Bool} (h : ∀ e ∈ extents, contents (f e) = e.cells.filter p) :
    contents (extents.flatMap f) = (contents extents).filter p := by
  rw [contents_flatMap, contents, filter_flatMap]
  exact flatMap_congr h

theorem contents_mapped {m : Binding → Binding} (h : ∀ e ∈ extents, contents (f e) = e.cells.map m) :
    contents (extents.flatMap f) = (contents extents).map m := by
  rw [contents_flatMap, contents, map_flatMap]
  exact flatMap_congr h

structure Cuts (extents kept freed : List Extent) (p : Binding → Bool) : Prop where
  perm : (contents kept ++ contents freed).Perm (contents extents)
  stays : ∀ x ∈ contents kept, p x = true
  goes : ∀ x ∈ contents freed, p x = false
  valid : ∀ e ∈ kept, e.Valid

variable {p : Binding → Bool}

theorem Cuts.filter (h : Cuts extents kept freed p) :
    (contents kept).Perm ((contents extents).filter p) := by
  have hperm := h.perm.filter p
  rw [filter_append, filter_eq_self.mpr h.stays,
    filter_eq_nil_iff.mpr fun x hx => by simp [h.goes x hx], append_nil] at hperm
  exact hperm

theorem Cuts.sound (hs : Sound extents) (h : Cuts extents kept freed p) : Sound kept := by
  refine hs.of_keys h.valid ?_
  have hperm := h.perm.map fun x => x.1
  rw [map_append] at hperm
  exact (sublist_append_left _ _).subperm.trans hperm.subperm

theorem sortDescending_perm (extents : List Extent) : (sortDescending extents).Perm extents :=
  mergeSort_perm _ _

theorem sortDescending_pairwise (extents : List Extent) :
    (sortDescending extents).Pairwise fun a b => b.block ≤ a.block := by
  have h : (sortDescending extents).Pairwise fun a b => decide (b.block ≤ a.block) = true :=
    pairwise_mergeSort (fun a b c hab hbc => by simp at *; omega) (fun a b => by simp; omega) extents
  simpa using h

theorem Sound.sortDescending (hs : Sound extents) :
    (Ext4.sortDescending extents).Pairwise fun a b => b.stop ≤ a.block := by
  have hrev : (Ext4.sortDescending extents).reverse.Pairwise fun a b => a.block ≤ b.block := by
    rw [pairwise_reverse]
    exact sortDescending_pairwise extents
  have hperm : extents.Perm (Ext4.sortDescending extents).reverse :=
    (sortDescending_perm extents).symm.trans (reverse_perm _).symm
  exact pairwise_reverse.mp ((hs.perm hperm).ordered hrev)

theorem le_foldl_max (l : List Nat) (m : Nat) : m ≤ l.foldl max m ∧ ∀ k ∈ l, k ≤ l.foldl max m := by
  induction l generalizing m with
  | nil => simp
  | cons k l ih =>
    obtain ⟨hm, hl⟩ := ih (max m k)
    refine ⟨le_trans (le_max_left _ _) hm, fun a ha => ?_⟩
    rcases mem_cons.mp ha with rfl | ha
    · exact le_trans (le_max_right _ _) hm
    · exact hl a ha

theorem foldl_max_le {l : List Nat} {m : Nat} (hm : m ≤ c) (hl : ∀ k ∈ l, k ≤ c) :
    l.foldl max m ≤ c := by
  induction l generalizing m with
  | nil => exact hm
  | cons k l ih =>
    exact ih (Nat.max_le.mpr ⟨hm, hl k mem_cons_self⟩) fun a ha => hl a (mem_cons_of_mem k ha)

theorem stop_le_frontier (he : e ∈ extents) : e.stop ≤ frontier extents :=
  (le_foldl_max _ 0).2 _ (mem_map.mpr ⟨e, he, rfl⟩)

theorem frontier_le (h : ∀ e ∈ extents, e.stop ≤ c) : frontier extents ≤ c :=
  foldl_max_le zero_le fun k hk => by
    obtain ⟨e, he, rfl⟩ := mem_map.mp hk
    exact h e he

theorem mem_contents_iff : x ∈ contents extents ↔ ∃ e ∈ extents, e.block ≤ x.1 ∧ x.1 < e.stop ∧
    x.2.1 = e.start + (x.1 - e.block) ∧ x.2.2 = e.kind := by
  simp only [mem_contents, mem_cells, covers, stop, Bool.and_eq_true, decide_eq_true_eq, and_assoc]

theorem Sound.cut (hs : Sound extents) (k : Nat) :
    (∀ e ∈ (Ext4.sortDescending extents).take k,
      frontier ((Ext4.sortDescending extents).drop k) ≤ e.block) := by
  intro e he
  refine frontier_le fun b hb => ?_
  have hsorted := hs.sortDescending
  rw [← take_append_drop k (Ext4.sortDescending extents)] at hsorted
  exact (pairwise_append.mp hsorted).2.2 e he b hb

section Punch

theorem valid_punchKept (he : e.Valid) : ∀ a ∈ e.punchKept lo hi, a.Valid := by
  intro a ha
  unfold punchKept at ha
  split at ha
  · obtain rfl := mem_singleton.mp ha
    exact he
  next hin =>
    simp only [outside, Bool.or_eq_true, decide_eq_true_eq, not_or, not_le] at hin
    rcases mem_append.mp ha with ha | ha
    · split at ha
      next hlt =>
        obtain rfl := mem_singleton.mp ha
        have hv := he.piece le_rfl hlt (by unfold stop; omega)
        simpa [piece] using hv
      · cases ha
    · split at ha
      next hlt =>
        obtain rfl := mem_singleton.mp ha
        exact he.piece (le_of_lt hin.2) hlt le_rfl
      · cases ha

theorem valid_punchDoomed (he : e.Valid) (hlt : lo < hi) : ∀ a ∈ e.punchDoomed lo hi, a.Valid := by
  intro a ha
  unfold Extent.punchDoomed at ha
  split at ha
  · cases ha
  next hin =>
    obtain rfl := mem_singleton.mp ha
    have hm := Extent.Meets.of_not_outside (Bool.eq_false_iff.mpr hin) he.pos hlt
    exact he.piece (le_max_left _ _) hm.lt (min_le_left _ _)

theorem punchDoomed_ge {a : Extent} (hlt : lo < hi) (ha : a ∈ e.punchDoomed lo hi) :
    lo ≤ a.block ∧ a.stop ≤ hi := by
  unfold Extent.punchDoomed at ha
  split at ha
  · cases ha
  next hin =>
    obtain rfl := mem_singleton.mp ha
    simp only [outside, Bool.or_eq_true, decide_eq_true_eq, not_or, not_le] at hin
    simp only [stop]
    omega

def punchedKept (lo hi : Nat) (extents : List Extent) : List Extent :=
  extents.flatMap (Extent.punchKept lo hi)

def punchedDoomed (lo hi : Nat) (extents : List Extent) : List Extent :=
  sortDescending (extents.flatMap (Extent.punchDoomed lo hi))

section

variable (hs : Sound extents) (hlt : lo < hi)

include hs hlt

theorem Sound.punchedKept :
    contents (punchedKept lo hi extents) = (contents extents).filter fun x => !inRange lo hi x :=
  contents_filtered fun e he => contents_punchKept (hs.valid e he).pos hlt

theorem Sound.punchDoomed :
    contents (extents.flatMap (Extent.punchDoomed lo hi)) = (contents extents).filter (inRange lo hi) :=
  contents_filtered fun e he => contents_punchDoomed (hs.valid e he).pos hlt

theorem Sound.doomed :
    Sound (extents.flatMap (Extent.punchDoomed lo hi)) := by
  refine hs.of_keys (fun a ha => ?_) ?_
  · obtain ⟨e, he, ha⟩ := mem_flatMap.mp ha
    exact valid_punchDoomed (hs.valid e he) hlt a ha
  · unfold keys
    rw [hs.punchDoomed hlt]
    exact (filter_sublist.map _).subperm

end

def punchCut (lo hi k : Nat) (extents : List Extent) : Nat :=
  max lo (frontier ((punchedDoomed lo hi extents).drop k))

theorem Sound.punch_cuts (hs : Sound extents) (hlt : lo < hi) (k : Nat) :
    Cuts extents (Ext4.punchedKept lo hi extents ++ (punchedDoomed lo hi extents).drop k)
      ((punchedDoomed lo hi extents).take k) fun x => !inRange (punchCut lo hi k extents) hi x := by
  have hdoomed := hs.doomed hlt
  have hperm : (contents (punchedDoomed lo hi extents)).Perm ((contents extents).filter (inRange lo hi)) := by
    rw [← hs.punchDoomed hlt]
    exact contents_perm (sortDescending_perm _)
  have hmem : ∀ a ∈ punchedDoomed lo hi extents, lo ≤ a.block ∧ a.stop ≤ hi ∧ a.Valid := by
    intro a ha
    have ha := (sortDescending_perm _).mem_iff.mp ha
    obtain ⟨e, he, hae⟩ := mem_flatMap.mp ha
    exact ⟨(punchDoomed_ge hlt hae).1, (punchDoomed_ge hlt hae).2, hdoomed.valid a ha⟩
  refine ⟨?_, fun x hx => ?_, fun x hx => ?_, fun e he => ?_⟩
  · rw [contents_append, append_assoc, hs.punchedKept hlt]
    have hparts : (contents ((punchedDoomed lo hi extents).drop k) ++
        contents ((punchedDoomed lo hi extents).take k)).Perm (contents (punchedDoomed lo hi extents)) := by
      refine perm_append_comm.trans ?_
      rw [← contents_append, take_append_drop]
    refine ((hparts.trans hperm).append_left _).trans ?_
    exact perm_append_comm.trans (filter_append_perm _ _)
  · rw [contents_append] at hx
    rcases mem_append.mp hx with hx | hx
    · rw [hs.punchedKept hlt] at hx
      have hout := (mem_filter.mp hx).2
      simp only [Bool.not_eq_true', Bool.eq_false_iff, Ne, inRange_iff] at hout ⊢
      unfold punchCut
      omega
    · obtain ⟨e, he, -, hstop, -⟩ := mem_contents_iff.mp hx
      have hfront := stop_le_frontier he
      simp only [Bool.not_eq_true', Bool.eq_false_iff, Ne, inRange_iff]
      unfold punchCut
      omega
  · obtain ⟨e, he, hblock, hstop, -⟩ := mem_contents_iff.mp hx
    have hcut := hdoomed.cut k e he
    have hrange := hmem e (mem_of_mem_take he)
    simp only [Bool.not_eq_false', inRange_iff]
    unfold punchCut
    exact ⟨Nat.max_le.mpr ⟨by omega, le_trans hcut hblock⟩, by omega⟩
  · rcases mem_append.mp he with he | he
    · obtain ⟨a, ha, he⟩ := mem_flatMap.mp he
      exact valid_punchKept (hs.valid a ha) e he
    · exact (hmem e (mem_of_mem_drop he)).2.2

theorem punchCut_all (lo hi : Nat) (extents : List Extent)
    (hk : (punchedDoomed lo hi extents).length ≤ k) : punchCut lo hi k extents = lo := by
  unfold punchCut
  rw [drop_eq_nil_of_le hk]
  exact Nat.max_eq_left zero_le

end Punch

section Convert

theorem Sound.convert (hs : Sound extents) (hlt : lo < hi) :
    contents (extents.flatMap (Extent.convert lo hi)) = (contents extents).map (mark lo hi) :=
  contents_mapped fun e he => contents_convert (hs.valid e he).pos hlt

theorem key_mark (x : Binding) : (mark lo hi x).1 = x.1 := by
  unfold mark
  split_ifs <;> rfl

theorem block_mark (x : Binding) : (mark lo hi x).2.1 = x.2.1 := by
  unfold mark
  split_ifs <;> rfl

theorem valid_written {block len start : Nat} (h : Extent.Valid ⟨block, len, start, .unwritten⟩) :
    Extent.Valid ⟨block, len, start, .written⟩ := by
  obtain ⟨⟨hpos, hblock, hstart, hlen⟩, hstop, hend⟩ := h
  refine ⟨⟨hpos, hblock, hstart, le_trans hlen ?_⟩, hstop, hend⟩
  simp [isUnwritten, maxUnwrittenLen]

theorem valid_convert (he : e.Valid) (hlt : lo < hi) : ∀ a ∈ e.convert lo hi, a.Valid := by
  intro a ha
  unfold Extent.convert at ha
  split at ha
  · obtain rfl := mem_singleton.mp ha
    exact he
  next hin =>
    obtain ⟨block, len, start, kind⟩ := e
    simp only [Bool.or_eq_true, Bool.not_eq_true', decide_eq_true_eq, not_or, not_le,
      Bool.not_eq_false, isUnwritten] at hin
    obtain ⟨⟨rfl, hlo⟩, hhi⟩ := hin
    have hpos : 0 < len := he.pos
    simp only [mem_append, mem_singleton, or_assoc] at ha
    rcases ha with ha | rfl | ha
    · split at ha
      next hhead =>
        obtain rfl := mem_singleton.mp ha
        have hv := he.piece le_rfl hhead (by simp only [stop]; omega)
        simpa [piece] using hv
      · cases ha
    · exact valid_written (he.piece (le_max_left _ _) (by omega) (min_le_left _ _))
    · split at ha
      next htail =>
        obtain rfl := mem_singleton.mp ha
        exact he.piece (by simp only; omega) htail le_rfl
      · cases ha

theorem Sound.converted (hs : Sound extents) (hlt : lo < hi) :
    Sound (extents.flatMap (Extent.convert lo hi)) := by
  refine hs.of_keys (fun a ha => ?_) (List.Perm.subperm (.of_eq ?_))
  · obtain ⟨e, he, ha⟩ := mem_flatMap.mp ha
    exact valid_convert (hs.valid e he) hlt a ha
  · unfold keys
    rw [hs.convert hlt, map_map]
    exact map_congr_left fun x _ => key_mark x

end Convert

section Truncate

variable {keep : Nat} {s : Extent}

theorem Ordered.split (ho : Ordered extents) (hs : ∀ e ∈ extents, 0 < e.len) (keep : Nat) :
    extents = extents.filter (fun e => e.block + e.len ≤ keep) ++
      ((extents.find? (straddles keep)).toList ++ extents.filter fun e => keep ≤ e.block) := by
  induction extents with
  | nil => rfl
  | cons e rest ih =>
    obtain ⟨hhead, hrest⟩ := pairwise_cons.mp ho
    have hpos := hs e mem_cons_self
    have ih := ih hrest fun a ha => hs a (mem_cons_of_mem e ha)
    by_cases hbelow : e.block + e.len ≤ keep
    · have hno : straddles keep e = false := by simp [straddles]; omega
      rw [filter_cons_of_pos (by simpa using hbelow), find?_cons_of_neg (by simp [hno]),
        filter_cons_of_neg (by simp; omega), cons_append, ← ih]
    · have hnone : rest.filter (fun a => a.block + a.len ≤ keep) = [] :=
        filter_eq_nil_iff.mpr fun a ha => by
          have := hhead a ha
          have := hs a (mem_cons_of_mem e ha)
          simp only [stop] at *
          simp
          omega
      have hall : rest.filter (fun a => keep ≤ a.block) = rest :=
        filter_eq_self.mpr fun a ha => by
          have := hhead a ha
          simp only [stop] at *
          simp
          omega
      rw [filter_cons_of_neg (by simpa using hbelow), hnone, nil_append]
      by_cases habove : keep ≤ e.block
      · have hno : straddles keep e = false := by simp [straddles]; omega
        have hnone' : rest.find? (straddles keep) = none :=
          find?_eq_none.mpr fun a ha => by
            have := hhead a ha
            simp only [stop] at *
            simp [straddles]
            omega
        rw [find?_cons_of_neg (by simp [hno]), hnone', filter_cons_of_pos (by simpa using habove),
          hall]
        rfl
      · have hyes : straddles keep e = true := by simp [straddles]; omega
        rw [find?_cons_of_pos hyes, filter_cons_of_neg (by simpa using habove), hall]
        rfl

def keptBelow (keep : Nat) (extents : List Extent) : List Extent :=
  extents.filter fun e => e.block + e.len ≤ keep

def doomedAbove (keep : Nat) (extents : List Extent) : List Extent :=
  sortDescending (extents.filter fun e => keep ≤ e.block)

theorem Sound.filter (hs : Sound extents) (p : Extent → Bool) : Sound (extents.filter p) := by
  refine hs.of_keys (fun e he => hs.valid e (mem_of_mem_filter he)) ?_
  exact (((filter_sublist (p := p)).flatMap cells).map _).subperm

theorem frontier_append {a b : List Extent} (ha : frontier a ≤ c) (hb : frontier b ≤ c) :
    frontier (a ++ b) ≤ c :=
  frontier_le fun e he => by
    rcases mem_append.mp he with he | he
    · exact le_trans (stop_le_frontier he) ha
    · exact le_trans (stop_le_frontier he) hb

theorem frontier_keptBelow (keep : Nat) (extents : List Extent) :
    frontier (keptBelow keep extents) ≤ keep :=
  frontier_le fun e he => by simpa [stop] using (mem_filter.mp he).2

theorem mem_doomedAbove (he : e ∈ doomedAbove keep extents) : e ∈ extents ∧ keep ≤ e.block := by
  have h := mem_filter.mp ((sortDescending_perm _).mem_iff.mp he)
  exact ⟨h.1, by simpa using h.2⟩

theorem straddler_spec (h : extents.find? (straddles keep) = some s) :
    s ∈ extents ∧ s.block < keep ∧ keep < s.stop := by
  have hs := find?_some h
  simp only [straddles, Bool.and_eq_true, decide_eq_true_eq] at hs
  exact ⟨mem_of_find?_eq_some h, hs⟩

theorem Ordered.straddler_below (ho : Ordered extents) (hs : Sound extents)
    (hstr : extents.find? (straddles keep) = some s) (he : e ∈ doomedAbove keep extents) :
    s.stop ≤ e.block := by
  obtain ⟨hmem, hge⟩ := mem_doomedAbove he
  have hsplit := ho.split (fun a ha => (hs.valid a ha).pos) keep
  unfold Ordered at ho
  rw [hsplit, hstr] at ho
  have hpair := (pairwise_append.mp (pairwise_append.mp ho).2.1).2.2
  exact hpair s (by simp) e (mem_filter.mpr ⟨hmem, by simpa using hge⟩)

theorem truncate_perm (ho : Ordered extents) (hs : Sound extents) (keep k : Nat) :
    (contents (keptBelow keep extents ++ (doomedAbove keep extents).drop k) ++
      (contents (extents.find? (straddles keep)).toList ++
        contents ((doomedAbove keep extents).take k))).Perm (contents extents) := by
  have hsplit := congrArg contents (ho.split (fun a ha => (hs.valid a ha).pos) keep)
  rw [contents_append, contents_append] at hsplit
  have hdoomed : (contents ((doomedAbove keep extents).take k) ++ contents ((doomedAbove keep extents).drop k)).Perm
        (contents (extents.filter fun e => keep ≤ e.block)) := by
    rw [← contents_append, take_append_drop]
    exact contents_perm (sortDescending_perm _)
  rw [hsplit, contents_append, append_assoc]
  refine List.Perm.append_left _ ?_
  refine perm_append_comm.trans ?_
  rw [append_assoc]
  exact hdoomed.append_left _

def below (c : Nat) (x : Binding) : Bool := x.1 < c

theorem Sound.truncate_cuts (hs : Sound extents) (ho : Ordered extents) (keep k : Nat) :
    Cuts extents (keptBelow keep extents ++ (doomedAbove keep extents).drop k ++
        (extents.find? (straddles keep)).toList) ((doomedAbove keep extents).take k)
      (below (max keep (frontier (keptBelow keep extents ++ (doomedAbove keep extents).drop k ++
        (extents.find? (straddles keep)).toList)))) := by
  refine ⟨?_, fun x hx => ?_, fun x hx => ?_, fun e he => ?_⟩
  · rw [contents_append, append_assoc]
    exact truncate_perm ho hs keep k
  · obtain ⟨e, he, -, hstop, -⟩ := mem_contents_iff.mp hx
    have hfront := stop_le_frontier he
    simp only [below, decide_eq_true_eq]
    omega
  · obtain ⟨e, he, hblock, -⟩ := mem_contents_iff.mp hx
    have hge := (mem_doomedAbove (mem_of_mem_take he)).2
    have hstr : frontier (extents.find? (straddles keep)).toList ≤ e.block :=
      frontier_le fun s hstr => ho.straddler_below hs (Option.mem_toList.mp hstr)
        (mem_of_mem_take he)
    have hcut := frontier_append (frontier_append
      (le_trans (frontier_keptBelow keep extents) hge) ((hs.filter _).cut k e he)) hstr
    simp only [below, decide_eq_false_iff_not, not_lt]
    exact Nat.max_le.mpr ⟨by omega, le_trans hcut hblock⟩
  · simp only [mem_append, Option.mem_toList] at he
    rcases he with (he | he) | he
    · exact hs.valid e (mem_of_mem_filter he)
    · exact hs.valid e (mem_doomedAbove (mem_of_mem_drop he)).1
    · exact hs.valid e (mem_of_find?_eq_some he)

theorem Sound.truncate_all (hs : Sound extents) (ho : Ordered extents)
    (hstr : extents.find? (straddles keep) = some s) (hk : (doomedAbove keep extents).length ≤ k) :
    Cuts extents (keptBelow keep extents ++ (doomedAbove keep extents).drop k ++
        [⟨s.block, keep - s.block, s.start, s.kind⟩])
      ((doomedAbove keep extents).take k ++ [s.piece keep s.stop])
      (below (max keep (frontier (keptBelow keep extents ++ (doomedAbove keep extents).drop k ++
        [⟨s.block, keep - s.block, s.start, s.kind⟩])))) := by
  obtain ⟨hmem, hlo, hhi⟩ := straddler_spec hstr
  have hpiece : (⟨s.block, keep - s.block, s.start, s.kind⟩ : Extent) = s.piece s.block keep := by
    simp [piece]
  have hcells : s.cells = (s.piece s.block keep).cells ++ (s.piece keep s.stop).cells := by
    rw [← cells_piece le_rfl (le_of_lt hlo) (le_of_lt hhi), piece_self]
  have hvalid := (hs.valid s hmem).piece le_rfl hlo (le_of_lt hhi)
  rw [hpiece, drop_eq_nil_of_le hk, append_nil]
  have hfront : frontier (keptBelow keep extents ++ [s.piece s.block keep]) ≤ keep :=
    frontier_append (frontier_keptBelow keep extents) (frontier_le fun e he => by
      obtain rfl := mem_singleton.mp he
      simp only [stop, piece]
      omega)
  rw [max_eq_left hfront]
  refine ⟨?_, fun x hx => ?_, fun x hx => ?_, fun e he => ?_⟩
  · have hperm := truncate_perm ho hs keep k
    rw [hstr, drop_eq_nil_of_le hk, append_nil] at hperm
    refine List.Perm.trans ?_ hperm
    simp only [contents_append, append_assoc, Option.toList_some, contents_cons, contents_nil,
      append_nil, hcells]
    refine List.Perm.append_left _ (List.Perm.append_left _ ?_)
    exact perm_append_comm
  · obtain ⟨e, he, -, hstop, -⟩ := mem_contents_iff.mp hx
    have := stop_le_frontier he
    simp only [below, decide_eq_true_eq]
    omega
  · rw [contents_append] at hx
    simp only [below, decide_eq_false_iff_not, not_lt]
    rcases mem_append.mp hx with hx | hx
    · obtain ⟨e, he, hblock, -⟩ := mem_contents_iff.mp hx
      exact le_trans (mem_doomedAbove (mem_of_mem_take he)).2 hblock
    · rw [contents_cons, contents_nil, append_nil] at hx
      exact ((mem_cells_piece (le_of_lt hlo)).mp hx).1
  · rcases mem_append.mp he with he | he
    · exact hs.valid e (mem_of_mem_filter he)
    · obtain rfl := mem_singleton.mp he
      exact hvalid

end Truncate

end Ext4
