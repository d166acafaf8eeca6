import Ext4.Extent.Failure
import Ext4.Extent.Tends

namespace Ext4

open List Extent TreeFs TreeDelta

variable {survivors : List Extent} {α : Type}
  {g : JournalGeometry} {csumSeed : Option UInt32} {policy : DataForgetPolicy}

section Pieces

variable {e a : Extent} {extents : List Extent} {lo hi keep : Nat}

namespace Extent

theorem outside_of_punchKept (ha : a ∈ e.punchKept lo hi) : a.outside lo hi = true := by
  unfold punchKept at ha
  split at ha
  next hout =>
    obtain rfl := mem_singleton.mp ha
    exact hout
  · rw [mem_append] at ha
    rcases ha with ha | ha
    · split at ha
      · obtain rfl := mem_singleton.mp ha
        simp only [outside, Bool.or_eq_true, decide_eq_true_eq]
        omega
      · cases ha
    · split at ha
      · obtain rfl := mem_singleton.mp ha
        simp [outside]
      · cases ha

theorem punchKept_outside (h : e.outside lo hi = true) : e.punchKept lo hi = [e] := by
  rw [punchKept, if_pos h]

theorem punchDoomed_outside (h : e.outside lo hi = true) : e.punchDoomed lo hi = [] := by
  rw [punchDoomed, if_pos h]

theorem not_outside_of_within (hpos : 0 < e.len) (h : lo ≤ e.block ∧ e.stop ≤ hi) : e.outside lo hi = false := by
  simp only [stop] at h
  simp only [outside, Bool.or_eq_false_iff, decide_eq_false_iff_not]
  omega

theorem punchKept_within (hpos : 0 < e.len) (h : lo ≤ e.block ∧ e.stop ≤ hi) : e.punchKept lo hi = [] := by
  have hout := not_outside_of_within hpos h
  simp only [stop] at h
  rw [punchKept, if_neg (by simp [hout]), if_neg (by omega), if_neg (by omega)]
  rfl

theorem punchKept_span (hpos : 0 < e.len) (ha : a ∈ e.punchKept lo hi) :
    e.block ≤ a.block ∧ a.stop ≤ e.stop := by
  unfold punchKept at ha
  split at ha
  · obtain rfl := mem_singleton.mp ha
    exact ⟨le_rfl, le_rfl⟩
  next hin =>
    simp only [outside, Bool.or_eq_true, decide_eq_true_eq, not_or, not_le] at hin
    rw [mem_append] at ha
    rcases ha with ha | ha
    · split at ha
      · obtain rfl := mem_singleton.mp ha
        simp only [stop]
        omega
      · cases ha
    · split at ha
      · obtain rfl := mem_singleton.mp ha
        simp only [stop]
        omega
      · cases ha

theorem punchKept_pairwise (hlt : lo < hi) (e : Extent) :
    (e.punchKept lo hi).Pairwise fun a b => a.stop ≤ b.block := by
  unfold punchKept
  split
  · exact pairwise_singleton _ _
  · refine pairwise_append.mpr ⟨by split <;> simp, by split <;> simp, fun a ha b hb => ?_⟩
    split at ha
    · obtain rfl := mem_singleton.mp ha
      split at hb
      · obtain rfl := mem_singleton.mp hb
        simp only [stop]
        omega
      · cases hb
    · cases ha

end Extent

theorem Sound.kept (hs : Sound extents) (hlt : lo < hi) : Sound (Ext4.punchedKept lo hi extents) := by
  refine hs.of_keys (fun a ha => ?_) ?_
  · obtain ⟨e, he, ha⟩ := mem_flatMap.mp ha
    exact valid_punchKept (hs.valid e he) a ha
  · unfold keys
    rw [hs.punchedKept hlt]
    exact (filter_sublist.map _).subperm

theorem Ordered.kept (ho : Ordered extents) (hs : Sound extents) (hlt : lo < hi) :
    Ordered (punchedKept lo hi extents) := by
  induction extents with
  | nil => exact .nil
  | cons e rest ih =>
    obtain ⟨hhead, hrest⟩ := pairwise_cons.mp ho
    have hvalid := hs.valid e mem_cons_self
    have hsound : Sound rest := hs.of_keys (fun a ha => hs.valid a (mem_cons_of_mem e ha)) <| by
      unfold keys
      rw [contents_cons, map_append]
      exact (sublist_append_right _ _).subperm
    unfold punchedKept
    rw [flatMap_cons]
    refine pairwise_append.mpr ⟨punchKept_pairwise hlt e, ih hrest hsound, fun a ha b hb => ?_⟩
    obtain ⟨c, hc, hb⟩ := mem_flatMap.mp hb
    have ha := punchKept_span hvalid.pos ha
    have hb := punchKept_span (hsound.valid c hc).pos hb
    have hgap := hhead c hc
    omega

def owing (lo hi : Nat) (extents : List Extent) : Nat := extents.countP fun e => !e.outside lo hi

theorem length_punchedDoomed (lo hi : Nat) (extents : List Extent) :
    (punchedDoomed lo hi extents).length = owing lo hi extents := by
  rw [punchedDoomed, (sortDescending_perm _).length_eq]
  unfold owing
  induction extents with
  | nil => rfl
  | cons e rest ih =>
    rw [flatMap_cons, length_append, ih, countP_cons]
    cases hout : e.outside lo hi with
    | true => simp [punchDoomed_outside hout]
    | false => simp [punchDoomed, hout, add_comm]

theorem punchedKept_append (lo hi : Nat) (extents extents' : List Extent) :
    punchedKept lo hi (extents ++ extents') = punchedKept lo hi extents ++ punchedKept lo hi extents' :=
  flatMap_append

theorem owing_append (lo hi : Nat) (extents extents' : List Extent) :
    owing lo hi (extents ++ extents') = owing lo hi extents + owing lo hi extents' :=
  countP_append

theorem punchedKept_outside (h : ∀ e ∈ extents, e.outside lo hi = true) :
    punchedKept lo hi extents = extents := by
  have hsame : extents.flatMap (punchKept lo hi) = extents.flatMap fun e => [e] :=
    flatMap_congr fun e he => punchKept_outside (h e he)
  exact hsame.trans (flatMap_singleton' extents)

theorem owing_outside (h : ∀ e ∈ extents, e.outside lo hi = true) : owing lo hi extents = 0 :=
  countP_eq_zero.mpr fun e he => by simp [h e he]

section

variable (h : ∀ e ∈ extents, 0 < e.len ∧ lo ≤ e.block ∧ e.stop ≤ hi)
include h

theorem punchedKept_within :
    punchedKept lo hi extents = [] :=
  flatMap_eq_nil_iff.mpr fun e he => punchKept_within (h e he).1 (h e he).2

theorem owing_within :
    owing lo hi extents = extents.length :=
  countP_eq_length.mpr fun e he => by simp [not_outside_of_within (h e he).1 (h e he).2]

end

theorem outside_of_owing (h : owing lo hi extents = 0) : ∀ e ∈ extents, e.outside lo hi = true := fun e he => by
  have hno := countP_eq_zero.mp h e he
  simpa using hno

structure Nears (lo hi : Nat) (extents extents' : List Extent) : Prop where
  kept : punchedKept lo hi extents' = punchedKept lo hi extents
  owing_le : owing lo hi extents' ≤ owing lo hi extents

theorem Nears.of_perm (hs : Sound extents) (ho : Ordered extents) (hlt : lo < hi) (hsound : Sound survivors)
    (hkept : (punchedKept lo hi survivors).Perm (punchedKept lo hi extents))
    (howing : owing lo hi survivors ≤ owing lo hi extents) :
    Nears lo hi extents (sortByBlock survivors) where
  kept := by
    have hperm := sortByBlock_perm survivors
    have hsorted := hsound.perm hperm.symm
    have hfirst := (hsound.sortByBlock.kept hsorted hlt).sortByBlock
    have hlast := (ho.kept hs hlt).sortByBlock_eq (hs.kept hlt)
      (((hperm.flatMap_right (punchKept lo hi))).trans hkept)
    exact hfirst.symm.trans hlast
  owing_le := by
    have hcount := (sortByBlock_perm survivors).countP_eq fun e => !e.outside lo hi
    unfold owing at *
    omega

theorem owing_sortByBlock (lo hi : Nat) (extents : List Extent) :
    owing lo hi (sortByBlock extents) = owing lo hi extents :=
  (sortByBlock_perm extents).countP_eq _

end Pieces

section Punched

variable {extents : List Extent} {lo hi : Nat}

theorem mem_punchedDoomed {a : Extent} (hs : Sound extents) (hlt : lo < hi)
    (ha : a ∈ punchedDoomed lo hi extents) : 0 < a.len ∧ lo ≤ a.block ∧ a.stop ≤ hi := by
  have ha := (sortDescending_perm _).mem_iff.mp ha
  obtain ⟨e, he, hae⟩ := mem_flatMap.mp ha
  exact ⟨((hs.doomed hlt).valid a ha).pos, punchDoomed_ge hlt hae⟩

theorem punched_outside : ∀ a ∈ punchedKept lo hi extents, a.outside lo hi = true := fun a ha => by
  obtain ⟨e, -, hae⟩ := mem_flatMap.mp ha
  exact outside_of_punchKept hae

theorem owing_punched (hs : Sound extents) (hlt : lo < hi) (k : Nat) :
    owing lo hi (punchedKept lo hi extents ++ (punchedDoomed lo hi extents).drop k) =
      owing lo hi extents - k := by
  rw [owing_append, owing_outside punched_outside, owing_within fun a ha =>
    mem_punchedDoomed hs hlt (mem_of_mem_drop ha), length_drop, length_punchedDoomed, zero_add]

theorem nears_punched (hs : Sound extents) (ho : Ordered extents) (hlt : lo < hi) (k : Nat) :
    Nears lo hi extents (sortByBlock (punchedKept lo hi extents ++ (punchedDoomed lo hi extents).drop k)) := by
  refine .of_perm hs ho hlt ((hs.punch_cuts hlt k).sound hs) (.of_eq ?_) ?_
  · rw [punchedKept_append, punchedKept_outside punched_outside, punchedKept_within fun a ha =>
      mem_punchedDoomed hs hlt (mem_of_mem_drop ha), append_nil]
  · rw [owing_punched hs hlt]
    exact Nat.sub_le _ _

theorem length_punched (hs : Sound extents) (hlt : lo < hi) (k : Nat) :
    (punchedKept lo hi (sortByBlock (punchedKept lo hi extents ++ (punchedDoomed lo hi extents).drop k))).length +
      (punchedDoomed lo hi
        (sortByBlock (punchedKept lo hi extents ++ (punchedDoomed lo hi extents).drop k))).length =
      (punchedKept lo hi extents ++ (punchedDoomed lo hi extents).drop k).length := by
  have hkept := ((sortByBlock_perm (punchedKept lo hi extents ++
    (punchedDoomed lo hi extents).drop k)).flatMap_right (punchKept lo hi)).length_eq
  have hsplit : (punchedKept lo hi extents ++ (punchedDoomed lo hi extents).drop k).flatMap
      (punchKept lo hi) = punchedKept lo hi extents := by
    change punchedKept lo hi (_ ++ _) = _
    rw [punchedKept_append, punchedKept_outside punched_outside, punchedKept_within fun a ha =>
      mem_punchedDoomed hs hlt (mem_of_mem_drop ha), append_nil]
  rw [hsplit] at hkept
  rw [length_punchedDoomed, owing_sortByBlock, owing_punched hs hlt, length_append, length_drop,
    length_punchedDoomed, ← hkept]
  rfl

end Punched

section Shorn

variable {extents rest cut : List Extent} {keep k : Nat} {chunked : Bool} {reserved : Prop} {e : Extent}
  {stopped : Bool}

theorem keep_lt (newSize : Nat) : keepBlocks newSize < 2 ^ 32 := Nat.mod_lt _ (by decide)

theorem keptBelow_outside (hi : Nat) : ∀ e ∈ keptBelow keep extents, e.outside keep hi = true := fun e he => by
  have hle := (mem_filter.mp he).2
  simp only [outside, Bool.or_eq_true]
  exact .inl hle

theorem doomedAbove_within (hs : Sound extents) (he : e ∈ doomedAbove keep extents) :
    0 < e.len ∧ keep ≤ e.block ∧ e.stop ≤ 2 ^ 32 := by
  obtain ⟨hmem, hle⟩ := mem_doomedAbove he
  have hv := hs.valid e hmem
  exact ⟨hv.pos, hle, le_trans hv.stop_le (by decide)⟩

theorem straddler_kept (hs : Sound extents) (hfind : extents.find? (straddles keep) = some e) :
    e.punchKept keep (2 ^ 32) = [⟨e.block, keep - e.block, e.start, e.kind⟩] ∧
      e.outside keep (2 ^ 32) = false := by
  obtain ⟨hmem, hlo, hhi⟩ := straddler_spec hfind
  have hstop := (hs.valid e hmem).stop_le
  have hout : e.outside keep (2 ^ 32) = false := by
    simp only [stop] at *
    simp only [outside, Bool.or_eq_false_iff, decide_eq_false_iff_not]
    omega
  refine ⟨?_, hout⟩
  simp only [stop] at *
  rw [punchKept, if_neg (by rw [hout]; decide), if_pos hlo, if_neg (by omega), append_nil]

section

variable (hs : Sound extents) (ht : Tailed extents keep stopped rest cut)
include hs ht

theorem Tailed.punchedKept_eq :
    punchedKept keep (2 ^ 32) rest =
      punchedKept keep (2 ^ 32) (extents.find? (straddles keep)).toList := by
  rcases ht.split with ⟨rfl, -⟩ | ⟨e, hfind, -, rfl, -⟩
  · rfl
  · have hpiece : outside keep (2 ^ 32) ⟨e.block, keep - e.block, e.start, e.kind⟩ = true := by
      have hlo := (straddler_spec hfind).2.1
      simp only [outside, Bool.or_eq_true, decide_eq_true_eq]
      omega
    rw [hfind, Option.toList_some]
    unfold punchedKept
    rw [flatMap_singleton, flatMap_singleton, (straddler_kept hs hfind).1, punchKept_outside hpiece]

theorem Tailed.owing_le :
    owing keep (2 ^ 32) rest ≤ owing keep (2 ^ 32) (extents.find? (straddles keep)).toList := by
  rcases ht.split with ⟨rfl, -⟩ | ⟨e, hfind, -, rfl, -⟩
  · exact le_rfl
  · rw [hfind, Option.toList_some]
    have hone : owing keep (2 ^ 32) [e] = 1 := by
      rw [owing, countP_cons_of_pos (by rw [(straddler_kept hs hfind).2]; rfl)]
      rfl
    rw [hone]
    exact countP_le_length

end

theorem Ordered.owing_split (ho : Ordered extents) (hs : Sound extents) (keep : Nat) :
    owing keep (2 ^ 32) extents = owing keep (2 ^ 32) (extents.find? (straddles keep)).toList +
      (doomedAbove keep extents).length := by
  have hsplit := ho.split (fun e he => (hs.valid e he).pos) keep
  have hbelow : owing keep (2 ^ 32) (keptBelow keep extents) = 0 := owing_outside (keptBelow_outside _)
  have habove : owing keep (2 ^ 32) (extents.filter fun e => keep ≤ e.block) =
      (doomedAbove keep extents).length := by
    rw [doomedAbove, (sortDescending_perm _).length_eq]
    exact owing_within fun e he => doomedAbove_within hs ((sortDescending_perm _).mem_iff.mpr he)
  conv_lhs => rw [hsplit]
  rw [owing_append, owing_append, habove]
  change owing keep (2 ^ 32) (keptBelow keep extents) + _ = _
  rw [hbelow, zero_add]

theorem Ordered.punchedKept_split (ho : Ordered extents) (hs : Sound extents) (keep : Nat) :
    punchedKept keep (2 ^ 32) extents = keptBelow keep extents ++
      punchedKept keep (2 ^ 32) (extents.find? (straddles keep)).toList := by
  have hsplit := ho.split (fun e he => (hs.valid e he).pos) keep
  have habove : punchedKept keep (2 ^ 32) (extents.filter fun e => keep ≤ e.block) = [] :=
    punchedKept_within fun e he => doomedAbove_within hs ((sortDescending_perm _).mem_iff.mpr he)
  conv_lhs => rw [hsplit]
  rw [punchedKept_append, punchedKept_append, habove, append_nil]
  exact congrArg (· ++ _) (punchedKept_outside (keptBelow_outside _))

theorem owing_sheared (hs : Sound extents) (keep k : Nat) (rest : List Extent) :
    owing keep (2 ^ 32) (shearedKept extents keep k rest) =
      ((doomedAbove keep extents).length - k) + owing keep (2 ^ 32) rest := by
  rw [shearedKept, owing_append, owing_append, owing_outside (keptBelow_outside _), owing_within fun e he =>
    doomedAbove_within hs (mem_of_mem_drop he), length_drop, zero_add]

section

variable (h : Sheared extents keep chunked reserved k rest cut) (hs : Sound extents) (ho : Ordered extents)

include h hs ho

theorem Sheared.nears (hlt : keep < 2 ^ 32) :
    Nears keep (2 ^ 32) extents (sortByBlock (shearedKept extents keep k rest)) := by
  refine .of_perm hs ho hlt ((h.cuts hs ho).sound hs) (.of_eq ?_) ?_
  · rw [ho.punchedKept_split hs, shearedKept, punchedKept_append, punchedKept_append,
      punchedKept_outside (keptBelow_outside _), punchedKept_within fun e he =>
      doomedAbove_within hs (mem_of_mem_drop he), append_nil, h.tail.punchedKept_eq hs]
  · have hrest := h.tail.owing_le hs
    rw [owing_sheared hs, ho.owing_split hs]
    omega

theorem Sheared.owing_lt (hres : reserved) (hwork : owing keep (2 ^ 32) extents ≠ 0) :
    owing keep (2 ^ 32) (sortByBlock (shearedKept extents keep k rest)) < owing keep (2 ^ 32) extents := by
  have hrest := h.tail.owing_le hs
  have hle := h.le
  rw [owing_sortByBlock, owing_sheared hs]
  rw [ho.owing_split hs] at hwork ⊢
  rcases h.forward hres with hpos | ⟨hnone, hfront⟩
  · by_cases hempty : doomedAbove keep extents = []
    · rw [hempty] at hle
      exact absurd hle (not_le.mpr hpos)
    · have hlen := length_pos_iff.mpr hempty
      omega
  · have hzero : owing keep (2 ^ 32) rest = 0 := owing_outside fun e he => by
      have hstop := le_trans (stop_le_frontier he) hfront
      simp only [stop] at hstop
      simp only [outside, Bool.or_eq_true, decide_eq_true_eq]
      exact .inl hstop
    rw [hnone, length_nil] at hwork ⊢
    omega

end

theorem owing_of_frontier_le (h : frontier extents ≤ keep) : owing keep (2 ^ 32) extents = 0 :=
  owing_outside fun e he => by
    have hstop := le_trans (stop_le_frontier he) h
    simp only [stop] at hstop
    simp only [outside, Bool.or_eq_true, decide_eq_true_eq]
    exact .inl hstop

theorem frontier_le_of_owing (hs : Sound extents) (h : owing keep (2 ^ 32) extents = 0) :
    frontier extents ≤ keep := by
  refine frontier_le fun e he => ?_
  have hout := outside_of_owing h e he
  have hv := hs.valid e he
  have hstop := hv.stop_le
  have hpos := hv.pos
  simp only [outside, Bool.or_eq_true, decide_eq_true_eq, stop] at *
  omega

end Shorn

section Steps

variable {s s' : TreeFs} {extents extents' : List Extent} {external : List Nat} {lo hi : Nat}
  {need : Fs → List Extent → Nat} {limit : Option Nat} {last : Bool} {bound : Nat} {b : Nat}

theorem truncateChunkCredits_mono (fs : Fs) {m n : Nat} (h : m ≤ n) :
    fs.truncateChunkCredits (externalNodeCount m) ≤ fs.truncateChunkCredits (externalNodeCount n) := by
  have hnodes := externalNodeCount_mono h
  unfold Fs.truncateChunkCredits Fs.reserializeCredits
  dsimp only
  omega

theorem truncateChunkCredits_congr {fs fs' : Fs} (h : fs'.layout = fs.layout) (n : Nat) :
    fs'.truncateChunkCredits n = fs.truncateChunkCredits n := by
  have hframe : fs'.sb.frame = fs.sb.frame := congrArg Layout.sb h
  have hsb : ∀ f : SuperBlock → Nat, f fs'.sb.frame = f fs.sb.frame := fun f => congrArg f hframe
  have hgroups : fs'.sb.nrBlockGroups = fs.sb.nrBlockGroups := hsb SuperBlock.nrBlockGroups
  have hdesc : fs'.sb.descSize = fs.sb.descSize := hsb SuperBlock.descSize
  simp only [Fs.truncateChunkCredits, Fs.reserializeCredits, Fs.nrGdtBlocks, hgroups, hdesc]

structure Advances (lo hi : Nat) (need : Fs → List Extent → Nat) (limit : Option Nat) (s s' : TreeFs)
    (extents : List Extent) (external : List Nat) (last : Bool) (bound : Nat) (extents' : List Extent) : Prop where
  becomes : Becomes s s' (dataBlocks extents ++ external) extents'
  nears : Nears lo hi extents extents'
  subset : ∀ b ∈ dataBlocks extents', b ∈ dataBlocks extents
  last_iff : last = true ↔ owing lo hi extents' = 0
  whole : limit = none → last = true
  progress : Reserves s.fs (need s.fs extents) → owing lo hi extents ≠ 0 → owing lo hi extents' < owing lo hi extents
  bound_eq : bound = need s'.fs extents'
  need_le : need s'.fs extents' ≤ need s.fs extents
  fits : ∀ l, limit = some l → owing lo hi extents ≠ 0 → need s.fs extents ≤ l

theorem Cuts.dataBlocks_subset {kept freed : List Extent} {p : Binding → Bool} (h : Cuts extents kept freed p) :
    ∀ b ∈ dataBlocks (sortByBlock kept), b ∈ dataBlocks extents := fun b hb => by
  obtain ⟨x, hx, rfl⟩ := mem_map.mp hb
  have hx := (contents_perm (sortByBlock_perm kept)).mem_iff.mp hx
  exact mem_map.mpr ⟨x, h.perm.mem_iff.mp (mem_append_left _ hx), rfl⟩

structure Restartable {ρ : Type} (chunk : Option Nat → TreeOp ρ) (last : ρ → Bool) (bound : ρ → Nat)
    (lo hi : Nat) (need : Fs → List Extent → Nat) : Prop where
  lt : lo < hi
  congr : ∀ fs fs' extents, fs'.layout = fs.layout → need fs' extents = need fs extents
  chunk : ∀ s extents external limit, Stands s extents external → (chunk limit).Ends s
    (fun r s' => ∃ extents', Advances lo hi need limit s s' extents external (last r) (bound r) extents')
    fun e _ => e.tooBig = true → ∃ l, limit = some l ∧ owing lo hi extents ≠ 0 ∧ l < need s.fs extents

def truncateNeed (fs : Fs) (extents : List Extent) : Nat :=
  Fs.extentFreeCredits + fs.truncateChunkCredits (externalNodeCount extents.length)

def punchNeed (lo hi : Nat) (fs : Fs) (extents : List Extent) : Nat :=
  Fs.extentFreeCredits + fs.truncateChunkCredits
    (externalNodeCount ((punchedKept lo hi extents).length + (punchedDoomed lo hi extents).length))

variable (g : JournalGeometry) (csumSeed : Option UInt32) (policy : DataForgetPolicy)

theorem work_iff (hs : Sound extents) (ho : Ordered extents) (keep : Nat) :
    (doomedAbove keep extents ≠ [] ∨ (extents.find? (straddles keep)).isSome = true) ↔
      owing keep (2 ^ 32) extents ≠ 0 := by
  rw [ho.owing_split hs]
  cases hfind : extents.find? (straddles keep) with
  | none =>
    have hnil : owing keep (2 ^ 32) (none : Option Extent).toList = 0 := rfl
    rw [hnil, zero_add]
    simp
  | some e =>
    have hone : owing keep (2 ^ 32) (some e).toList = 1 := by
      rw [Option.toList_some, owing, countP_cons_of_pos (by rw [(straddler_kept hs hfind).2]; rfl)]
      rfl
    rw [hone]
    simp

theorem floor_refuses {need : Nat} {p owes : Prop} [Decidable p] (hwork : p ↔ owes) {wide : Fault} {rest : TreeOp α}
    (hrest : Modest rest) :
    (if limit.any (fun l => l < need) ∧ p then Op.fail wide else rest).Ends s
      (fun _ _ => ∀ l, limit = some l → owes → need ≤ l)
      fun e _ => e.tooBig = true → ∃ l, limit = some l ∧ owes ∧ l < need := by
  split
  next hfloor =>
    obtain ⟨l, hl, hlt⟩ := (Option.any_eq_true _ _).mp hfloor.1
    exact .fail fun _ => ⟨l, hl, hwork.mp hfloor.2, of_decide_eq_true hlt⟩
  next hfloor =>
    refine (Modest.silent hrest s).mono (fun _ _ _ => ?_) fun _ _ h => h
    rintro l rfl hne
    exact not_lt.mp fun hl => hfloor ⟨decide_eq_true hl, hwork.mpr hne⟩

theorem truncateChunk_refuses (h : Stands s extents external) (newSize : Nat) (limit : Option Nat) :
    (truncateChunk g csumSeed policy newSize limit).Ends s
      (fun _ _ => ∀ l, limit = some l → owing (keepBlocks newSize) (2 ^ 32) extents ≠ 0 →
        truncateNeed s.fs extents ≤ l)
      fun e _ => e.tooBig = true → ∃ l, limit = some l ∧ owing (keepBlocks newSize) (2 ^ 32) extents ≠ 0 ∧
        l < truncateNeed s.fs extents := by
  refine .bind_of_eq h.flatten (.bind_get ?_)
  simp only [h.ordered.sortByBlock]
  exact floor_refuses (work_iff h.sound h.ordered (keepBlocks newSize)) (.bind
    (.zoom (freeDoomed_ebbs g policy _ _ _).2) fun k => .bind (.zoom (freeTail_ebbs g policy _ _ _ _ _).2) fun r =>
      .bind (shrinkTree_modest g csumSeed _ _ _) fun _ => .bind .get fun _ => .ret _)

theorem punchChunk_refuses (h : Stands s extents external) (hlt : lo < hi) (limit : Option Nat) :
    (punchChunk g csumSeed policy lo hi limit).Ends s
      (fun _ _ => ∀ l, limit = some l → owing lo hi extents ≠ 0 → punchNeed lo hi s.fs extents ≤ l)
      fun e _ => e.tooBig = true → ∃ l, limit = some l ∧ owing lo hi extents ≠ 0 ∧
        l < punchNeed lo hi s.fs extents := by
  have hwork : punchedDoomed lo hi extents ≠ [] ↔ owing lo hi extents ≠ 0 := by
    rw [← length_punchedDoomed, Ne, Ne, length_eq_zero_iff]
  unfold punchChunk
  rw [if_neg (not_le.mpr hlt)]
  refine .bind_of_eq h.flatten (.bind_get ?_)
  simp only [h.ordered.sortByBlock]
  exact floor_refuses hwork (.bind (.zoom (freeDoomed_ebbs g policy _ _ _).2) fun k =>
    .bind (shrinkTree_modest g csumSeed _ _ _) fun _ => .bind .get fun _ => .ret _)

theorem truncateChunk_restartable (newSize : Nat) :
    Restartable (truncateChunk g csumSeed policy newSize) (fun r => decide (r.reached ≤ keepBlocks newSize))
      TruncateChunk.nextBound (keepBlocks newSize) (2 ^ 32) truncateNeed where
  lt := keep_lt newSize
  congr fs fs' extents hl := by simp only [truncateNeed, truncateChunkCredits_congr hl]
  chunk s extents external limit h := by
    have hunfunded : False → s.fs.Funds (s.fs.layout.systemBids ∪ external.toFinset) 0 := False.elim
    refine ((truncateChunk_shears h hunfunded newSize limit).and
      (truncateChunk_refuses g csumSeed policy h newSize limit)).mono (fun r s' hr => ?_) fun _ _ he => he.2
    obtain ⟨⟨k, rest, cut, hsh, hbec, rfl⟩, hfits⟩ := hr
    have hlen := (sortByBlock_perm (shearedKept extents (keepBlocks newSize) k rest)).length_eq
    have hcuts := hsh.cuts h.sound h.ordered
    have hlayout : s'.fs.layout = s.fs.layout := by
      obtain ⟨external', -, htrades⟩ := hbec
      exact htrades.layout
    refine ⟨_, hbec, hsh.nears h.sound h.ordered (keep_lt newSize), hcuts.dataBlocks_subset, ?_, fun hno => ?_,
      fun hres hne => hsh.owing_lt h.sound h.ordered hres hne, ?_, ?_, hfits⟩
    · rw [decide_eq_true_iff, owing_sortByBlock]
      exact ⟨owing_of_frontier_le, frontier_le_of_owing (hcuts.sound h.sound)⟩
    · obtain ⟨hk, hrest⟩ := hsh.whole (by simp [hno])
      exact decide_eq_true (frontier_shearedKept (le_of_eq hk.symm) hrest)
    · simp only [truncateNeed, hlen]
    · simp only [truncateNeed, truncateChunkCredits_congr hlayout]
      refine Nat.add_le_add_left (truncateChunkCredits_mono _ ?_) _
      rw [hlen]
      exact hsh.tail.length_le h.sound h.ordered

theorem punchChunk_restartable (hlt : lo < hi) :
    Restartable (punchChunk g csumSeed policy lo hi) (fun r => !r.more) PunchChunk.nextBound lo hi
      (punchNeed lo hi) where
  lt := hlt
  congr fs fs' extents hl := by simp only [punchNeed, truncateChunkCredits_congr hl]
  chunk s extents external limit h := by
    have hunfunded : False → s.fs.Funds (s.fs.layout.systemBids ∪ external.toFinset) 0 ∧
      externalNodeCount ((punchedKept lo hi extents).length + (punchedDoomed lo hi extents).length) ≤
        external.length := False.elim
    refine ((punchChunk_punches h hlt hunfunded g csumSeed policy limit).and
      (punchChunk_refuses g csumSeed policy h hlt limit)).mono (fun r s' hr => ?_) fun _ _ he => he.2
    obtain ⟨⟨k, hk, hall, hforward, hbec, rfl⟩, hfits⟩ := hr
    have hcuts := h.sound.punch_cuts hlt k
    have hlayout : s'.fs.layout = s.fs.layout := by
      obtain ⟨external', -, htrades⟩ := hbec
      exact htrades.layout
    have howing := owing_punched h.sound hlt k
    have hdoomed := length_punchedDoomed lo hi extents
    refine ⟨_, hbec, nears_punched h.sound h.ordered hlt k, hcuts.dataBlocks_subset, ?_, fun hno => ?_,
      fun hres hne => ?_, ?_, ?_, hfits⟩
    · rw [owing_sortByBlock, howing, hdoomed]
      simp [Nat.sub_eq_zero_iff_le]
    · simp [hall hno]
    · rw [owing_sortByBlock, howing]
      rcases hforward hres with hpos | hnone
      · omega
      · rw [hnone] at hdoomed
        exact absurd hdoomed.symm hne
    · simp only [punchNeed, length_punched h.sound hlt k]
    · simp only [punchNeed, length_punched h.sound hlt k, truncateChunkCredits_congr hlayout]
      refine Nat.add_le_add_left (truncateChunkCredits_mono _ ?_) _
      rw [length_append, length_drop]
      omega

end Steps

namespace TreeFs

def owed (lo hi : Nat) (s : TreeFs) : Nat :=
  match (s.tree.flatten s.fs).1 with
  | .ok (extents, _) => owing lo hi extents
  | .error _ => 0

def Maps (s : TreeFs) (b : Nat) : Prop :=
  ∃ ib e, (s.tree.lookup ib s.fs).1 = .ok (some e) ∧ b = e.start + (ib - e.block)

def GivesUp (s s' : TreeFs) (b : Nat) : Prop := s.Maps b ∧ ¬s'.Maps b

def Node (s : TreeFs) (b : Nat) : Prop :=
  ∃ extents external, (s.tree.flatten s.fs).1 = .ok (extents, external) ∧ b ∈ external

end TreeFs

section Runs

variable {s s' s₁ s₂ : TreeFs} {extents extents' : List Extent} {external : List Nat} {lo hi b : Nat}

section

variable (h : Stands s extents external)
include h

theorem Stands.read : (s.tree.flatten s.fs).1 = .ok (extents, external) := by
  have hread : s.tree.flatten s.fs = (.ok (extents, external), s.fs) := flatten_eq h.shaped
  rw [hread]

theorem Stands.owed (lo hi : Nat) : s.owed lo hi = owing lo hi extents := by
  rw [TreeFs.owed, h.read]

theorem Stands.maps : s.Maps b ↔ b ∈ dataBlocks extents := by
  constructor
  · rintro ⟨ib, e, hlook, rfl⟩
    rw [h.lookup] at hlook
    obtain ⟨he, hcov⟩ := h.sound.find?.mp (Except.ok.inj hlook)
    exact mem_map.mpr ⟨(ib, e.start + (ib - e.block), e.kind), mem_contents.mpr
      ⟨e, he, mem_cells.mpr ⟨hcov, rfl, rfl⟩⟩, rfl⟩
  · intro hb
    obtain ⟨x, hx, rfl⟩ := mem_map.mp hb
    obtain ⟨e, he, hxe⟩ := mem_contents.mp hx
    obtain ⟨hcov, hblock, -⟩ := mem_cells.mp hxe
    refine ⟨x.1, e, ?_, hblock⟩
    rw [h.lookup]
    exact congrArg Except.ok (h.sound.find?.mpr ⟨he, hcov⟩)

end

structure Resumes (credits : Nat) (s s' : TreeFs) : Prop where
  root : s'.tree.root = s.tree.root
  sectorCount : s'.tree.sectorCount = s.tree.sectorCount
  steady : s'.fs.Steady
  layout : s'.fs.layout = s.fs.layout
  blocks : ∀ b, s.Maps b ∨ s.Node b → s'.fs.image b = s.fs.image b ∧ s'.fs.blockUsed b = s.fs.blockUsed b
  reserved : Reserves s'.fs credits

theorem Resumes.stands {credits : Nat} (hr : Resumes credits s s') (h : Stands s extents external) :
    Stands s' extents external := by
  have hblocks : ∀ b ∈ dataBlocks extents ++ external,
      s'.fs.image b = s.fs.image b ∧ s'.fs.blockUsed b = s.fs.blockUsed b := fun b hb => by
    refine hr.blocks b ((mem_append.mp hb).imp (fun hb => h.maps.mpr hb) fun hb => ?_)
    exact ⟨extents, external, h.read, hb⟩
  refine ⟨hr.steady, ?_, h.sound, h.ordered, ⟨h.owns.nodup, fun b hb => ?_, fun b hb => ?_, fun b hb => ?_⟩,
    hr.sectorCount.trans h.sectors⟩
  · rw [hr.root]
    exact h.shaped.congr fun b hb => (hblocks b (mem_append_right _ hb)).1
  · rw [hr.layout]
    exact h.owns.contains b hb
  · rw [(hblocks b hb).2]
    exact h.owns.used b hb
  · rw [hr.layout]
    exact h.owns.system b hb

inductive Pauses {ρ : Type} (chunk : TreeOp ρ) (last : ρ → Bool) (bound : ρ → Nat) :
    List (TreeFs × TreeFs) → TreeFs → TreeFs → Prop
  | start (s : TreeFs) : Pauses chunk last bound [] s s
  | next {trace : List (TreeFs × TreeFs)} {s s₁ s₂ s₃ : TreeFs} {r : ρ} :
      Pauses chunk last bound trace s s₁ → chunk s₁ = (.ok r, s₂) → last r = false →
      Resumes (bound r) s₂ s₃ → Pauses chunk last bound (trace ++ [(s₁, s₂)]) s s₃

structure EndsAlike (s : TreeFs) (trace : List (TreeFs × TreeFs)) (s' whole : TreeFs) : Prop where
  mapping : ∀ ib, (s'.tree.lookup ib s'.fs).1 = (whole.tree.lookup ib whole.fs).1
  sectors : s'.tree.sectorCount = whole.tree.sectorCount
  freed : ∀ b, (∃ p ∈ trace, p.1.GivesUp p.2 b) ↔ s.GivesUp whole b
  released : ∀ p ∈ trace, ∀ b, p.1.GivesUp p.2 b → p.2.fs.blockUsed b = false ∨ p.2.Node b
  nodes : ∀ extents external, (s'.tree.flatten s'.fs).1 = .ok (extents, external) →
    ∃ external', (whole.tree.flatten whole.fs).1 = .ok (extents, external') ∧
      external'.length = external.length

def Converges {ρ : Type} (chunk : Option Nat → TreeOp ρ) (last : ρ → Bool) (bound : ρ → Nat) (lo hi : Nat) : Prop :=
  ∀ s extents external limit trace s₁, Stands s extents external →
    Pauses (chunk (some limit)) last bound trace s s₁ →
    trace.length ≤ s.owed lo hi ∧
    (trace ≠ [] → (chunk (some limit)).Ends s₁ (fun _ s' => s'.owed lo hi < s₁.owed lo hi)
      fun e _ => e.tooBig = false) ∧
    ∀ r s', chunk (some limit) s₁ = (.ok r, s') → last r = true →
      ∀ r' whole, chunk none s = (.ok r', whole) → EndsAlike s (trace ++ [(s₁, s')]) s' whole

section Loop

variable {ρ : Type} {chunk : Option Nat → TreeOp ρ} {last : ρ → Bool} {bound : ρ → Nat}
  {need : Fs → List Extent → Nat} {limit : Nat} {trace : List (TreeFs × TreeFs)}

structure Tally (lo hi : Nat) (extents : List Extent) (trace : List (TreeFs × TreeFs))
    (extents₁ : List Extent) : Prop where
  kept : punchedKept lo hi extents₁ = punchedKept lo hi extents
  subset : ∀ b ∈ dataBlocks extents₁, b ∈ dataBlocks extents
  freed : ∀ b, (∃ p ∈ trace, p.1.GivesUp p.2 b) ↔ b ∈ dataBlocks extents ∧ b ∉ dataBlocks extents₁
  released : ∀ p ∈ trace, ∀ b, p.1.GivesUp p.2 b → p.2.fs.blockUsed b = false ∨ p.2.Node b

theorem Tally.start (lo hi : Nat) (extents : List Extent) : Tally lo hi extents [] extents where
  kept := rfl
  subset _ hb := hb
  freed b := by simp
  released _ hp := absurd hp not_mem_nil

theorem Tally.next {extents1 extents2 : List Extent} {external1 : List Nat} {lst : Bool} {bnd : Nat}
    {lim : Option Nat} (h : Tally lo hi extents trace extents1) (hst : Stands s₁ extents1 external1)
    (ha : Advances lo hi need lim s₁ s₂ extents1 external1 lst bnd extents2) :
    Tally lo hi extents (trace ++ [(s₁, s₂)]) extents2 := by
  obtain ⟨external2, hst2, htrades⟩ := ha.becomes
  have hgives : ∀ b, s₁.GivesUp s₂ b ↔ b ∈ dataBlocks extents1 ∧ b ∉ dataBlocks extents2 := fun b => by
    rw [TreeFs.GivesUp, hst.maps, hst2.maps]
  refine ⟨ha.nears.kept.trans h.kept, fun b hb => h.subset b (ha.subset b hb), fun b => ?_, fun p hp b hb => ?_⟩
  · constructor
    · rintro ⟨p, hp, hb⟩
      rcases mem_append.mp hp with hp | hp
      · obtain ⟨hin, hout⟩ := (h.freed b).mp ⟨p, hp, hb⟩
        exact ⟨hin, fun hb => hout (ha.subset b hb)⟩
      · obtain rfl := mem_singleton.mp hp
        obtain ⟨hin, hout⟩ := (hgives b).mp hb
        exact ⟨h.subset b hin, hout⟩
    · rintro ⟨hin, hout⟩
      by_cases hmid : b ∈ dataBlocks extents1
      · exact ⟨_, mem_append_right _ (mem_singleton.mpr rfl), (hgives b).mpr ⟨hmid, hout⟩⟩
      · obtain ⟨p, hp, hb⟩ := (h.freed b).mpr ⟨hin, hmid⟩
        exact ⟨p, mem_append_left _ hp, hb⟩
  · rcases mem_append.mp hp with hp | hp
    · exact h.released p hp b hb
    · obtain rfl := mem_singleton.mp hp
      obtain ⟨hin, hout⟩ := (hgives b).mp hb
      have hold : b ∈ dataBlocks extents1 ++ external1 := mem_append_left _ hin
      by_cases hnode : b ∈ external2
      · exact .inr ⟨extents2, external2, hst2.read, hnode⟩
      · refine .inl ?_
        rw [htrades.used (hst.owns.contains b hold)]
        simp [hold, hout, hnode]

theorem Pauses.tally (hrs : Restartable chunk last bound lo hi need) (h : Stands s extents external)
    (hp : Pauses (chunk (some limit)) last bound trace s s₁) :
    ∃ extents1 external1, Stands s₁ extents1 external1 ∧ Tally lo hi extents trace extents1 ∧
      (trace = [] ∧ extents1 = extents ∨ owing lo hi extents1 ≠ 0 ∧
        owing lo hi extents1 + trace.length ≤ owing lo hi extents + 1 ∧
        Reserves s₁.fs (need s₁.fs extents1) ∧ need s₁.fs extents1 ≤ limit) := by
  induction hp with
  | start s => exact ⟨extents, external, h, .start lo hi extents, .inl ⟨rfl, rfl⟩⟩
  | @next trace s s₁ s₂ s3 r hp hrun hmore hres ih =>
    obtain ⟨extents1, external1, hst, htally, hcases⟩ := ih h
    obtain ⟨extents2, ha⟩ := (hrs.chunk s₁ extents1 external1 (some limit) hst).of_ok hrun
    obtain ⟨external2, hst2, -⟩ := ha.becomes
    have hwork : owing lo hi extents2 ≠ 0 := fun hzero => by
      rw [ha.last_iff.mpr hzero] at hmore
      cases hmore
    have hbefore : owing lo hi extents1 ≠ 0 := fun hzero => hwork (Nat.le_zero.mp (hzero ▸ ha.nears.owing_le))
    have hneed : need s3.fs extents2 = bound r := (hrs.congr _ _ _ hres.layout).trans ha.bound_eq.symm
    refine ⟨extents2, external2, hres.stands hst2, htally.next hst ha, .inr ⟨hwork, ?_, hneed ▸ hres.reserved, ?_⟩⟩
    · have hle := ha.nears.owing_le
      rw [length_append, length_singleton]
      rcases hcases with ⟨rfl, rfl⟩ | ⟨-, hcount, hreserved, -⟩
      · rw [length_nil]
        omega
      · have hlt := ha.progress hreserved hbefore
        omega
    · rw [hneed, ha.bound_eq]
      exact le_trans ha.need_le (ha.fits limit rfl hbefore)

theorem punchedKept_settled (h : owing lo hi extents = 0) : punchedKept lo hi extents = extents :=
  punchedKept_outside (outside_of_owing h)

theorem Restartable.converges (hrs : Restartable chunk last bound lo hi need) :
    Converges chunk last bound lo hi := by
  intro s extents external limit trace s₁ h hp
  obtain ⟨extents1, external1, hst, htally, hcases⟩ := hp.tally hrs h
  have hstep := hrs.chunk s₁ extents1 external1 (some limit) hst
  refine ⟨?_, fun htrace => ?_, fun r s' hrun hlast r' whole hwhole => ?_⟩
  · rw [h.owed]
    rcases hcases with ⟨rfl, -⟩ | ⟨hwork, hcount, -⟩
    · exact zero_le
    · omega
  · rcases hcases with ⟨hnil, -⟩ | ⟨hwork, -, hreserved, hfits⟩
    · exact absurd hnil htrace
    refine hstep.mono (fun r s' hr => ?_) fun e _ he => ?_
    · obtain ⟨extents', ha⟩ := hr
      obtain ⟨external', hst', -⟩ := ha.becomes
      rw [hst'.owed, hst.owed]
      exact ha.progress hreserved hwork
    · refine Bool.eq_false_iff.mpr fun hbig => ?_
      obtain ⟨l, hl, -, hlt⟩ := he hbig
      cases hl
      exact absurd hfits (not_le.mpr hlt)
  · obtain ⟨extents', ha⟩ := hstep.of_ok hrun
    obtain ⟨external', hst', -⟩ := ha.becomes
    obtain ⟨extentsW, hw⟩ := (hrs.chunk s extents external none h).of_ok hwhole
    obtain ⟨externalW, hstW, -⟩ := hw.becomes
    have htally' := htally.next hst ha
    have hend : extents' = extentsW := by
      rw [← punchedKept_settled (ha.last_iff.mp hlast), htally'.kept, ← hw.nears.kept]
      exact punchedKept_settled (hw.last_iff.mp (hw.whole rfl))
    subst hend
    have hnodes : externalW.length = external'.length := by rw [hstW.shaped.count, hst'.shaped.count]
    refine ⟨fun ib => ?_, ?_, fun b => ?_, htally'.released, fun flat nodes hread => ?_⟩
    · rw [hst'.lookup, hstW.lookup]
    · rw [hst'.sectors, hstW.sectors, hnodes]
    · rw [htally'.freed, TreeFs.GivesUp, h.maps, hstW.maps]
    · rw [hst'.read] at hread
      cases hread
      exact ⟨externalW, hstW.read, hnodes⟩

end Loop

theorem punchChunk_empty (hle : hi ≤ lo) (limit : Option Nat) (s : TreeFs) :
    punchChunk g csumSeed policy lo hi limit s = (.ok ⟨false, Fs.extentFreeCredits⟩, s) := by
  unfold punchChunk
  rw [if_pos hle]
  rfl

theorem punchChunk_converges_empty (hle : hi ≤ lo) :
    Converges (punchChunk g csumSeed policy lo hi) (fun r => !r.more) PunchChunk.nextBound lo hi := by
  intro s extents external limit trace s₁ h hp
  cases hp with
  | start =>
    refine ⟨zero_le, fun hno => absurd rfl hno, fun r s' hrun _ r' whole hwhole => ?_⟩
    rw [punchChunk_empty hle] at hrun hwhole
    cases hrun
    cases hwhole
    have hnone : ∀ b, ¬s.GivesUp s b := fun b hb => hb.2 hb.1
    refine ⟨fun _ => rfl, rfl, fun b => ?_, fun p hp b hb => ?_, fun flat nodes hread => ⟨nodes, hread, rfl⟩⟩
    · refine iff_of_false ?_ (hnone b)
      rintro ⟨p, hp, hb⟩
      obtain rfl := mem_singleton.mp hp
      exact hnone b hb
    · obtain rfl := mem_singleton.mp hp
      exact absurd hb (hnone b)
  | next hp hrun hmore hres =>
    rw [punchChunk_empty hle] at hrun
    cases hrun
    cases hmore

theorem chunks_converge (g : JournalGeometry) (csumSeed : Option UInt32) (policy : DataForgetPolicy) :
    (∀ newSize, Converges (truncateChunk g csumSeed policy newSize)
      (fun r => decide (r.reached ≤ keepBlocks newSize)) TruncateChunk.nextBound (keepBlocks newSize) (2 ^ 32)) ∧
    ∀ lo hi, Converges (punchChunk g csumSeed policy lo hi) (fun r => !r.more) PunchChunk.nextBound lo hi := by
  refine ⟨fun newSize => (truncateChunk_restartable g csumSeed policy newSize).converges, fun lo hi => ?_⟩
  by_cases hlt : lo < hi
  · exact (punchChunk_restartable g csumSeed policy hlt).converges
  · exact punchChunk_converges_empty (Nat.not_lt.mp hlt)

theorem sortDescending_eq {sorted : List Extent} (ho : sorted.Pairwise fun a b => b.block ≤ a.block)
    (hs : Sound sorted) (hperm : extents.Perm sorted) : sortDescending extents = sorted := by
  have hall := (sortDescending_perm extents).trans hperm
  refine List.Perm.eq_of_pairwise (fun a b ha hb hab hba => ?_) (sortDescending_pairwise extents) ho hall
  exact hs.eq_of_block (hall.mem_iff.mp ha) hb (le_antisymm hba hab)

theorem punchChunk_eq {g : JournalGeometry} {csumSeed : Option UInt32} {policy : DataForgetPolicy}
    {limit : Option Nat} {doomed : List Extent} {k need : Nat} {delta : TreeDelta} {net : Int}
    (h : Stands s extents external) (hlt : lo < hi)
    (hdoomed : sortDescending (extents.flatMap (punchDoomed lo hi)) = doomed)
    (hneed : Fs.extentFreeCredits + s.fs.truncateChunkCredits
      (externalNodeCount ((punchedKept lo hi extents).length + doomed.length)) = need)
    (hfits : ∀ l, limit = some l → need ≤ l)
    (hfree : onFs (freeDoomed g policy limit.isSome need doomed) s = (.ok k, s₁))
    (hsort : sortByBlock (punchedKept lo hi extents ++ doomed.drop k) = survivors)
    (hrun : reserialize g csumSeed survivors external s₁ = (.ok delta, s₂))
    (hnet : delta.netMeta - totalLen (doomed.take k) = net) :
    ∃ r, punchChunk g csumSeed policy lo hi limit s = (.ok r, (account net s₂).2) ∧
      r.more = decide (k < doomed.length) := by
  subst hneed hnet
  unfold punchChunk
  rw [if_neg (not_le.mpr hlt), Op.bind_ok h.flatten]
  dsimp only
  rw [Op.get_bind, h.ordered.sortByBlock, hdoomed, if_neg fun hfloor => ?_]
  · have hshrink : shrinkTree g csumSeed (punchedKept lo hi extents ++ doomed.drop k) external
        (totalLen (doomed.take k)) s₁ =
          (.ok (), (account (delta.netMeta - totalLen (doomed.take k)) s₂).2) := by
      unfold shrinkTree
      rw [hsort]
      exact Op.bind_ok hrun
    exact ⟨_, (Op.bind_ok hfree).trans ((Op.bind_ok hshrink).trans rfl), rfl⟩
  · obtain ⟨l, hl, hlt⟩ := (Option.any_eq_true _ _).mp hfloor.1
    exact absurd (hfits l hl) (not_le.mpr (of_decide_eq_true hlt))

section Strip

def tight : JournalGeometry where
  blockMap := List.range 12
  superblock := { Specimen.wide.superblock with
    maxlen := 12
    maxlen_lt := by decide
    first_lt := by decide }
  maxlen_le := by decide
  map_lt := by decide

def stripVolume : Specimen := ⟨32, 20, 8, by decide, by decide, Specimen.bits_32⟩

def strip : List Extent :=
  [⟨0, 1, 8, .written⟩, ⟨2, 2, 10, .written⟩, ⟨5, 2, 13, .written⟩, ⟨8, 1, 16, .written⟩]

def stripFile : TreeFs := stripVolume.holder tight (fun _ => none) (inlineLeafRoot strip) strip []

theorem stripFile_stands : Stands stripFile strip [] :=
  Specimen.stands_inline (by decide) (by decide) (by decide) (by decide) (by decide)

def restarted (s : TreeFs) : TreeFs :=
  { s with fs := { s.fs with
      journal := some (stripVolume.journal tight)
      handle := some (journalStart (Tid.ofNat 1) stripVolume.credits)
      device := s.fs.image } }

theorem restarted_resumes (hst : s.fs.Steady) : Resumes 8 s (restarted s) where
  root := rfl
  sectorCount := rfl
  steady := ⟨.live ⟨rfl, rfl, (stripVolume.live tight).serves, (stripVolume.live tight).credits⟩, hst.wf,
    hst.system, hst.narrow⟩
  layout := rfl
  blocks b _ := ⟨rfl, rfl⟩
  reserved h hh := by
    cases hh
    exact le_rfl

def stripDoomed : List Extent := [⟨5, 1, 13, .written⟩, ⟨3, 1, 11, .written⟩]

def stripSurvivors : List Extent :=
  [⟨0, 1, 8, .written⟩, ⟨2, 1, 10, .written⟩, ⟨3, 1, 11, .written⟩, ⟨6, 1, 14, .written⟩, ⟨8, 1, 16, .written⟩]

theorem strip_doomed : sortDescending (strip.flatMap (punchDoomed 3 6)) = stripDoomed :=
  sortDescending_eq (by decide) (by decide) (by decide)

theorem strip_survivors : sortByBlock (punchedKept 3 6 strip ++ stripDoomed.drop 1) = stripSurvivors :=
  Ordered.sortByBlock_eq (by decide) (by decide) (by decide)

def stripFreed : Except Fault Nat × TreeFs := TreeFs.onFs (freeDoomed tight .plainData true 8 stripDoomed) stripFile

def stripRebuilt : Except Fault TreeDelta × TreeFs := reserialize tight none stripSurvivors [] stripFreed.2

def halfStrip : TreeFs := (TreeFs.account 0 stripRebuilt.2).2

def againFreed : Except Fault Nat × TreeFs :=
  TreeFs.onFs (freeDoomed tight .plainData true 8 [⟨3, 1, 11, .written⟩]) (restarted halfStrip)

def againRebuilt : Except Fault TreeDelta × TreeFs :=
  reserialize tight none (punchedKept 3 6 stripSurvivors) [20] againFreed.2

def wholeFreed : Except Fault Nat × TreeFs := TreeFs.onFs (freeDoomed tight .plainData false 8 stripDoomed) stripFile

def wholeRebuilt : Except Fault TreeDelta × TreeFs := reserialize tight none (punchedKept 3 6 strip) [] wholeFreed.2

def TreeDelta.pair (delta : TreeDelta) : Nat × Nat := (delta.metaAllocated, delta.metaFreed)

theorem halfStrip_runs :
    stripFreed.1.toOption = some 1 ∧ stripRebuilt.1.toOption.map pair = some (1, 0) ∧
      (halfStrip.tree.flatten halfStrip.fs).1.toOption.map Prod.snd = some [20] ∧
      stripFile.fs.blockUsed 20 = false ∧ (restarted halfStrip).fs.blockUsed 20 = true := by
  decide +kernel

theorem strip_runs :
    againFreed.1.toOption = some 1 ∧ againRebuilt.1.toOption.map pair = some (0, 1) ∧
      againRebuilt.2.fs.blockUsed 20 = false ∧ wholeFreed.1.toOption = some 2 ∧
      wholeRebuilt.1.toOption.map pair = some (0, 0) ∧ wholeRebuilt.2.fs.blockUsed 20 = false := by
  decide +kernel

theorem eq_ok_of_toOption {β : Type} {r : Except Fault α × β} {a : α} (h : r.1.toOption = some a) :
    r = (.ok a, r.2) := by
  obtain ⟨r, s⟩ := r
  cases r with
  | ok b =>
    cases h
    rfl
  | error e => cases h

theorem eq_delta {r : Except Fault TreeDelta × TreeFs} {a f : Nat} (h : r.1.toOption.map pair = some (a, f)) :
    r = (.ok ⟨a, f⟩, r.2) := by
  obtain ⟨r, s⟩ := r
  cases r with
  | ok delta =>
    cases h
    rfl
  | error e => cases h

theorem account_fs (blocks : Int) (s : TreeFs) : (account blocks s).2.fs = s.fs := rfl

theorem strip_stopped : ∃ r, punchChunk tight none .plainData 3 6 (some 8) stripFile = (.ok r, halfStrip) ∧
    r.more = true := by
  have hfree : onFs (freeDoomed tight .plainData (some 8).isSome 8 stripDoomed) stripFile =
      (.ok 1, stripFreed.2) := eq_ok_of_toOption (r := stripFreed) halfStrip_runs.1
  have hrun : reserialize tight none stripSurvivors [] stripFreed.2 = (.ok ⟨1, 0⟩, stripRebuilt.2) :=
    eq_delta (r := stripRebuilt) halfStrip_runs.2.1
  exact punchChunk_eq stripFile_stands (by decide) strip_doomed (by decide) (by rintro l ⟨⟩; decide) hfree
    strip_survivors hrun (by decide)

theorem halfStrip_stands : Stands halfStrip stripSurvivors [20] := by
  obtain ⟨r, hrun, hmore⟩ := strip_stopped
  have hunfunded : False → stripFile.fs.Funds (stripFile.fs.layout.systemBids ∪ ([] : List Nat).toFinset) 0 ∧
    externalNodeCount ((punchedKept 3 6 strip).length + (punchedDoomed 3 6 strip).length) ≤
      ([] : List Nat).length := False.elim
  obtain ⟨k, -, -, hforward, ⟨external, hst, -⟩, rfl⟩ := (punchChunk_punches stripFile_stands (by decide)
    hunfunded tight none .plainData (some 8)).of_ok hrun
  have hdoomed : punchedDoomed 3 6 strip = stripDoomed := strip_doomed
  rw [hdoomed] at hst hmore hforward
  have hpos : 0 < k := by
    refine (hforward fun h hh => ?_).resolve_right (by decide)
    cases hh
    decide
  have hlt : k < 2 := of_decide_eq_true hmore
  obtain rfl : k = 1 := by omega
  rw [strip_survivors] at hst
  have hnodes := halfStrip_runs.2.2.1
  rw [hst.read] at hnodes
  cases hnodes
  exact hst

theorem strip_finished : ∃ r s, punchChunk tight none .plainData 3 6 (some 8) (restarted halfStrip) = (.ok r, s) ∧
    r.more = false ∧ s.fs.blockUsed 20 = false := by
  obtain ⟨hfreed, hrebuilt, hclear, -⟩ := strip_runs
  have hfree : onFs (freeDoomed tight .plainData (some 8).isSome 8 [⟨3, 1, 11, .written⟩])
      (restarted halfStrip) = (.ok 1, againFreed.2) := eq_ok_of_toOption (r := againFreed) hfreed
  have hrun : reserialize tight none (punchedKept 3 6 stripSurvivors) [20] againFreed.2 =
      (.ok ⟨0, 1⟩, againRebuilt.2) := eq_delta (r := againRebuilt) hrebuilt
  have hst := (restarted_resumes halfStrip_stands.steady).stands halfStrip_stands
  have hdoomed : sortDescending (stripSurvivors.flatMap (punchDoomed 3 6)) = [⟨3, 1, 11, .written⟩] :=
    sortDescending_eq (by decide) (by decide) (by decide)
  have hneed : Fs.extentFreeCredits + (restarted halfStrip).fs.truncateChunkCredits (externalNodeCount
      ((punchedKept 3 6 stripSurvivors).length + [(⟨3, 1, 11, .written⟩ : Extent)].length)) = 8 := by
    decide +kernel
  have hsort : sortByBlock (punchedKept 3 6 stripSurvivors ++ [(⟨3, 1, 11, .written⟩ : Extent)].drop 1) =
      punchedKept 3 6 stripSurvivors := Ordered.sortByBlock_eq (by decide) (by decide) (by decide)
  have hnet : netMeta ⟨0, 1⟩ - (totalLen ([(⟨3, 1, 11, .written⟩ : Extent)].take 1) : Int) = -2 := by
    decide
  obtain ⟨r, heq, hmore⟩ := punchChunk_eq hst (by decide) hdoomed hneed (by rintro l ⟨⟩; decide) hfree hsort hrun
    hnet
  refine ⟨r, _, heq, hmore, ?_⟩
  rw [account_fs]
  exact hclear

theorem strip_whole : ∃ r s, punchChunk tight none .plainData 3 6 none stripFile = (.ok r, s) ∧
    s.fs.blockUsed 20 = false := by
  obtain ⟨-, -, -, hfreed, hrebuilt, hclear⟩ := strip_runs
  have hfree : onFs (freeDoomed tight .plainData (none : Option Nat).isSome 8 stripDoomed) stripFile =
      (.ok 2, wholeFreed.2) := eq_ok_of_toOption (r := wholeFreed) hfreed
  have hrun : reserialize tight none (punchedKept 3 6 strip) [] wholeFreed.2 = (.ok ⟨0, 0⟩, wholeRebuilt.2) :=
    eq_delta (r := wholeRebuilt) hrebuilt
  have hsort : sortByBlock (punchedKept 3 6 strip ++ stripDoomed.drop 2) = punchedKept 3 6 strip :=
    Ordered.sortByBlock_eq (by decide) (by decide) (by decide)
  have hnet : netMeta ⟨0, 0⟩ - (totalLen (stripDoomed.take 2) : Int) = -2 := by decide
  obtain ⟨r, heq, -⟩ := punchChunk_eq stripFile_stands (by decide) strip_doomed (by decide) (by rintro l ⟨⟩) hfree hsort hrun
    hnet
  refine ⟨r, _, heq, ?_⟩
  rw [account_fs]
  exact hclear

theorem strip_resumes : ∃ r, punchChunk tight none .plainData 3 6 (some 8) stripFile = (.ok r, halfStrip) ∧
    r.more = true ∧ Resumes r.nextBound halfStrip (restarted halfStrip) := by
  obtain ⟨r, hrun, hmore⟩ := strip_stopped
  obtain ⟨extents', ha⟩ := ((punchChunk_restartable tight none .plainData (by decide)).chunk stripFile strip []
    (some 8) stripFile_stands).of_ok hrun
  obtain ⟨external', hst, -⟩ := ha.becomes
  have hread := hst.read
  rw [halfStrip_stands.read] at hread
  cases hread
  have hbound : r.nextBound = 8 := by
    rw [ha.bound_eq, punchNeed, length_punchedDoomed]
    decide +kernel
  refine ⟨r, hrun, hmore, ?_⟩
  rw [hbound]
  exact restarted_resumes halfStrip_stands.steady

-- the leaf the interrupted punch needed is freed by its last chunk; in one call it never was
theorem chunked_punch_frees_leaf :
    Journal.maxCredits tight = 8 ∧ Stands stripFile strip [] ∧ stripFile.fs.blockUsed 20 = false ∧
    (∃ r, punchChunk tight none .plainData 3 6 (some 8) stripFile = (.ok r, halfStrip) ∧ r.more = true ∧
      Resumes r.nextBound halfStrip (restarted halfStrip)) ∧ (restarted halfStrip).fs.blockUsed 20 = true ∧
    (∃ r s, punchChunk tight none .plainData 3 6 (some 8) (restarted halfStrip) = (.ok r, s) ∧
      r.more = false ∧ s.fs.blockUsed 20 = false) ∧
    ∃ r s, punchChunk tight none .plainData 3 6 none stripFile = (.ok r, s) ∧ s.fs.blockUsed 20 = false :=
  ⟨by decide, stripFile_stands, halfStrip_runs.2.2.2.1, strip_resumes, halfStrip_runs.2.2.2.2, strip_finished,
    strip_whole⟩

theorem chunks_converge_strip : ∃ s' whole,
    Pauses (punchChunk tight none .plainData 3 6 (some 8)) (fun r => !r.more) PunchChunk.nextBound
      [(stripFile, halfStrip)] stripFile (restarted halfStrip) ∧
    EndsAlike stripFile [(stripFile, halfStrip), (restarted halfStrip, s')] s' whole := by
  obtain ⟨r, hrun, hmore, hres⟩ := strip_resumes
  obtain ⟨r', s', hlast, hdone, -⟩ := strip_finished
  obtain ⟨_, whole, hwhole, -⟩ := strip_whole
  have hp : Pauses (punchChunk tight none .plainData 3 6 (some 8)) (fun r => !r.more) PunchChunk.nextBound
      ([] ++ [(stripFile, halfStrip)]) stripFile (restarted halfStrip) :=
    .next (.start stripFile) hrun (by simp [hmore]) hres
  exact ⟨s', whole, hp, ((chunks_converge tight none .plainData).2 3 6 stripFile strip [] 8 _ _ stripFile_stands
    hp).2.2 r' s' hlast (by simp [hdone]) _ whole hwhole⟩

end Strip

end Runs

end Ext4
