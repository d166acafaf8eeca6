import Ext4.Extent.Converge

namespace Ext4

open List Extent TreeFs

variable {g : JournalGeometry} {csumSeed : Option UInt32}

section Holes

variable {extents : List Extent} {stop cursor ib : Nat} {hole : HoleRun}

def HoleRun.Has (hole : HoleRun) (ib : Nat) : Prop := hole.start ≤ ib ∧ ib < hole.stop

theorem lastHole_has : (∃ hole ∈ lastHole stop cursor, hole.Has ib) ↔ cursor ≤ ib ∧ ib < stop := by
  unfold lastHole HoleRun.Has
  split
  · simp
  · simp only [not_mem_nil, false_and, exists_false, false_iff, not_and]
    omega

theorem computeHoles_has (hsorted : extents.Pairwise fun a b => a.block ≤ b.block) (stop cursor ib : Nat) :
    (∃ hole ∈ computeHoles stop cursor extents, hole.Has ib) ↔
      cursor ≤ ib ∧ ib < stop ∧ ∀ e ∈ extents, e.covers ib = false := by
  induction extents generalizing cursor with
  | nil => simpa [computeHoles] using lastHole_has
  | cons e rest ih =>
    obtain ⟨hhead, hrest⟩ := pairwise_cons.mp hsorted
    have hcovers : e.covers ib = false ↔ ib < e.block ∨ e.block + e.len ≤ ib := by
      simp only [covers, Bool.and_eq_false_iff, decide_eq_false_iff_not, not_le, not_lt]
    simp only [forall_mem_cons, hcovers]
    unfold computeHoles
    split
    · rw [ih hrest]
      refine and_congr_right fun hlo => and_congr_right fun _ => ?_
      exact ⟨fun h => ⟨.inr (by omega), h⟩, fun h => h.2⟩
    split
    next hbeyond =>
      rw [lastHole_has]
      refine and_congr_right fun _ => ⟨fun hlt => ⟨hlt, .inl (by omega), fun a ha => ?_⟩, fun h => h.1⟩
      have := hhead a ha
      simp only [covers, Bool.and_eq_false_iff, decide_eq_false_iff_not]
      omega
    next hpast hbeyond =>
      have hgap : (∃ hole ∈ if cursor < e.block then [⟨cursor, min e.block stop⟩] else [], HoleRun.Has hole ib) ↔
          cursor ≤ ib ∧ ib < e.block := by
        split
        · simp only [mem_singleton, exists_eq_left, HoleRun.Has, Nat.lt_min]
          omega
        · simp only [not_mem_nil, false_and, exists_false, false_iff, not_and]
          omega
      have htail : (∃ hole ∈ if stop ≤ max cursor (e.block + e.len) then []
          else computeHoles stop (max cursor (e.block + e.len)) rest, HoleRun.Has hole ib) ↔
          e.block + e.len ≤ ib ∧ ib < stop ∧ ∀ a ∈ rest, a.covers ib = false := by
        split
        · simp only [not_mem_nil, false_and, exists_false, false_iff, not_and]
          omega
        · rw [ih hrest, max_eq_right (by omega)]
      have hlow : ib < e.block → ∀ a ∈ rest, a.covers ib = false := fun hlt a ha => by
        have := hhead a ha
        simp only [covers, Bool.and_eq_false_iff, decide_eq_false_iff_not]
        omega
      simp only [mem_append, or_and_right, exists_or, hgap, htail]
      constructor
      · rintro (⟨hlo, hlt⟩ | ⟨hlo, hlt, hall⟩)
        · exact ⟨hlo, by omega, .inl ⟨hlt, hlow hlt⟩⟩
        · exact ⟨by omega, hlt, .inr ⟨hlo, hall⟩⟩
      · rintro ⟨hlo, hlt, ⟨hfirst, -⟩ | ⟨hpast, hall⟩⟩
        · exact .inl ⟨hlo, hfirst⟩
        · exact .inr ⟨hpast, hlt, hall⟩

theorem computeHoles_within (hmem : hole ∈ computeHoles stop cursor extents) :
    cursor ≤ hole.start ∧ hole.start < hole.stop ∧ hole.stop ≤ stop := by
  have hlast : ∀ c, hole ∈ lastHole stop c → c ≤ hole.start ∧ hole.start < hole.stop ∧ hole.stop ≤ stop := fun c hc => by
    unfold lastHole at hc
    split at hc
    · obtain rfl := mem_singleton.mp hc
      simp only
      omega
    · cases hc
  induction extents generalizing cursor with
  | nil => exact hlast cursor hmem
  | cons e rest ih =>
    unfold computeHoles at hmem
    split at hmem
    · exact ih hmem
    split at hmem
    · exact hlast cursor hmem
    rcases mem_append.mp hmem with hmem | hmem
    · split at hmem
      · obtain rfl := mem_singleton.mp hmem
        simp only
        omega
      · cases hmem
    · split at hmem
      · cases hmem
      · have := ih hmem
        omega

theorem computeHoles_apart (hpos : ∀ e ∈ extents, 0 < e.len) (stop cursor : Nat) :
    (computeHoles stop cursor extents).Pairwise fun a b => a.stop < b.start := by
  have hlast : ∀ c, (lastHole stop c).Pairwise fun a b => a.stop < b.start := fun c => by
    unfold lastHole
    split <;> simp
  induction extents generalizing cursor with
  | nil => exact hlast cursor
  | cons e rest ih =>
    obtain ⟨hlen, hrest⟩ := forall_mem_cons.mp hpos
    unfold computeHoles
    split
    · exact ih hrest cursor
    split
    · exact hlast cursor
    refine pairwise_append.mpr ⟨by split <;> simp, by split; exacts [.nil, ih hrest _], fun a ha b hb => ?_⟩
    split at ha
    · obtain rfl := mem_singleton.mp ha
      split at hb
      · cases hb
      · have := (computeHoles_within hb).1
        simp only
        omega
    · cases ha

end Holes

section Fill

variable {s s' : TreeFs} {extents extents₀ : List Extent} {external : List Nat} {fs' : Fs} {lo hi ib : Nat}
  {owed owed' : Nat → Prop} {base : Fs} {old : List Nat}

theorem Stands.moves (h : Stands s extents external) {used : Nat → Bool} (hm : s.fs.Moves fs' used ∅ ∅)
    (hused : ∀ b, s.fs.blockUsed b = true → used b = true) : Stands { s with fs := fs' } extents external where
  steady := hm.steady h.steady fun b hb hc => hused b (h.steady.system b hb hc)
  shaped := h.shaped.congr fun b hb =>
    hm.image b (h.owns.system b (mem_append_right _ hb)) (Set.notMem_empty b) (Set.notMem_empty b)
  sound := h.sound
  ordered := h.ordered
  owns :=
    { nodup := h.owns.nodup
      contains := fun b hb => by
        rw [hm.layout]
        exact h.owns.contains b hb
      used := fun b hb => by
        rw [hm.used_eq b (h.owns.contains b hb)]
        exact hused b (h.owns.used b hb)
      system := fun b hb => by
        rw [hm.layout]
        exact h.owns.system b hb }
  sectors := h.sectors

structure Patched (base : Fs) (old : List Nat) (extents₀ : List Extent) (lo hi : Nat) (owed : Nat → Prop)
    (s : TreeFs) (extents : List Extent) (external : List Nat) (added : List Binding) : Prop where
  stands : Stands s extents external
  trades : base.Trades s.fs old (dataBlocks extents ++ external)
  perm : (contents extents).Perm (contents extents₀ ++ added)
  fresh : ∀ x ∈ added, lo ≤ x.1 ∧ x.1 < hi ∧ x.2.2 = .unwritten
  mapped : ∀ ib, lo ≤ ib → ib < hi → (ib ∈ keys extents ↔ ¬owed ib)

def Filling (base : Fs) (old : List Nat) (extents₀ : List Extent) (lo hi : Nat) (owed : Nat → Prop)
    (s : TreeFs) : Prop :=
  ∃ extents external added, Patched base old extents₀ lo hi owed s extents external added

theorem Filling.congr (h : Filling base old extents₀ lo hi owed s) (howed : ∀ j, lo ≤ j → j < hi → (owed j ↔ owed' j)) :
    Filling base old extents₀ lo hi owed' s := by
  obtain ⟨extents, external, added, hp⟩ := h
  refine ⟨extents, external, added, hp.stands, hp.trades, hp.perm, hp.fresh, fun j hlo hhi => ?_⟩
  rw [hp.mapped j hlo hhi, howed j hlo hhi]

theorem reserveInsert_eq (g : JournalGeometry) (bound : AllocBound) (need : Nat) :
    reserveInsert g bound need = probe g (decide (bound = .creditChunk)) need := by
  unfold reserveInsert probe
  simp only [decide_eq_true_eq]

theorem reserveInsert_filling (h : Filling base old extents₀ lo hi owed s) (bound : AllocBound) (need : Nat) :
    (onFs (reserveInsert g bound need)).Ends s
      (fun _ s' => Filling base old extents₀ lo hi owed s') fun _ _ => True := by
  obtain ⟨extents, external, added, hp⟩ := h
  rw [reserveInsert_eq]
  refine .zoom ((probe_ends hp.stands.steady.ready _ need).mono (fun _ fs' hfs => ?_) fun _ _ _ => trivial)
  have hm : s.fs.Moves fs' s.fs.blockUsed ∅ ∅ := hfs.2.weaken (by simp) subset_rfl (by simp)
  exact ⟨extents, external, added, hp.stands.moves hm fun _ hb => hb,
    hp.trades.trans (hfs.2.trades hp.stands.owns (List.Perm.refl _)), hp.perm, hp.fresh, hp.mapped⟩

theorem mem_keys_covers : ib ∈ keys extents ↔ ∃ e ∈ extents, e.covers ib = true := by
  rw [keys, mem_map]
  constructor
  · rintro ⟨x, hx, rfl⟩
    obtain ⟨e, he, hxe⟩ := mem_contents.mp hx
    exact ⟨e, he, (mem_cells.mp hxe).1⟩
  · rintro ⟨e, he, hcov⟩
    exact ⟨(ib, e.start + (ib - e.block), e.kind), mem_contents.mpr ⟨e, he, mem_cells.mpr ⟨hcov, rfl, rfl⟩⟩,
      rfl⟩

theorem mem_keys_extent {e : Extent} {j : Nat} : j ∈ keys [e] ↔ e.block ≤ j ∧ j < e.stop := by
  simp only [keys, contents_cons, contents_nil, append_nil, cells, map_map, mem_map,
    mem_range, Function.comp_apply, stop]
  constructor
  · rintro ⟨i, hi, rfl⟩
    omega
  · rintro ⟨hlo, hhi⟩
    exact ⟨j - e.block, by omega, by omega⟩

theorem nodup_dataBlocks_extent (e : Extent) : (dataBlocks [e]).Nodup := by
  simp only [dataBlocks, contents_cons, contents_nil, append_nil, cells, map_map]
  exact nodup_range.map fun i j hij => add_left_cancel hij

theorem nodup_keys_extent (e : Extent) : (keys [e]).Nodup := by
  simp only [keys, contents_cons, contents_nil, append_nil, cells, map_map]
  exact nodup_range.map fun i j hij => add_left_cancel hij

theorem keys_append (extents others : List Extent) : keys (extents ++ others) = keys extents ++ keys others := by
  simp [keys]

def freshExtent (ib : Nat) (r : IdRange) : Extent := ⟨ib, r.len, r.start, .unwritten⟩

section Step

variable {added : List Binding} {r : IdRange} {want : Nat}

theorem mem_dataBlocks_fresh (hr : s.fs.Fresh want r) (ib : Nat) {b : Nat} :
    b ∈ dataBlocks [freshExtent ib r] ↔ r.contains b = true := by
  have hpos := hr.pos
  rw [mem_dataBlocks_single]
  simp only [freshExtent, IdRange.len, IdRange.contains, Bool.and_eq_true, decide_eq_true_eq]
  omega

theorem Fresh.valid (hs : s.fs.Steady) (hr : s.fs.Fresh want r) (hmax : want ≤ maxUnwrittenLen)
    (hfit : ib + want ≤ 2 ^ 32 - 1) : (freshExtent ib r).Valid := by
  have hpos := hr.pos
  have hlen := hr.len_le
  have hnarrow := hs.narrow
  have hlast : s.fs.layout.Contains (r.stop - 1) := hr.contains _ (by
    simp only [IdRange.contains, Bool.and_eq_true, decide_eq_true_eq]
    omega)
  have hbound := hlast.2
  simp only [IdRange.len] at hlen
  refine ⟨⟨?_, ?_, ?_, ?_⟩, ?_, ?_⟩
  · exact Nat.sub_pos_of_lt hpos
  · change ib < 2 ^ 32
    omega
  · change r.start < 2 ^ 48
    omega
  · exact le_trans hr.len_le hmax
  · change ib + (r.stop - r.start) ≤ 2 ^ 32 - 1
    omega
  · change r.start + (r.stop - r.start) ≤ 2 ^ 48
    omega

section

variable (hp : Patched base old extents₀ lo hi owed s extents external added) (hr : s.fs.Fresh want r) (hm : s.fs.Moves fs' (fun b => r.contains b || s.fs.blockUsed b) ∅ ∅)

include hp hr hm

theorem Patched.owns_fresh :
    fs'.Owns (dataBlocks (extents ++ [freshExtent ib r]) ++ external) := by
  have howns := hp.stands.owns
  have hnew : ∀ b, b ∈ dataBlocks [freshExtent ib r] → s.fs.layout.Contains b ∧ s.fs.blockUsed b = false :=
    fun b hb => ⟨hr.contains b ((mem_dataBlocks_fresh hr ib).mp hb), hr.clear b ((mem_dataBlocks_fresh hr ib).mp hb)⟩
  have hperm : (dataBlocks [freshExtent ib r] ++ (dataBlocks extents ++ external)).Perm
      (dataBlocks (extents ++ [freshExtent ib r]) ++ external) := by
    rw [dataBlocks_append, ← append_assoc]
    exact perm_append_comm.append_right _
  have hfresh : fs'.Owns (dataBlocks [freshExtent ib r]) := by
    refine ⟨nodup_dataBlocks_extent _, fun b hb => ?_, fun b hb => ?_, fun b hb => ?_⟩
    · rw [hm.layout]
      exact (hnew b hb).1
    · rw [hm.used_eq b (hnew b hb).1, (mem_dataBlocks_fresh hr ib).mp hb, Bool.true_or]
    · rw [hm.layout]
      exact hp.stands.steady.not_system (hnew b hb).1 (hnew b hb).2
  have hkept : fs'.Owns (dataBlocks extents ++ external) := by
    refine ⟨howns.nodup, fun b hb => ?_, fun b hb => ?_, fun b hb => ?_⟩
    · rw [hm.layout]
      exact howns.contains b hb
    · rw [hm.used_eq b (howns.contains b hb), howns.used b hb, Bool.or_true]
    · rw [hm.layout]
      exact howns.system b hb
  refine Fs.Owns.perm (hfresh.append hkept fun b hb hb' => ?_) hperm
  have hclear := (hnew b hb).2
  rw [howns.used b hb'] at hclear
  cases hclear

theorem Patched.trades_fresh :
    base.Trades fs' old (dataBlocks (extents ++ [freshExtent ib r]) ++ external) := by
  have howns := hp.stands.owns
  have hmem : ∀ b, b ∈ dataBlocks (extents ++ [freshExtent ib r]) ++ external ↔
      b ∈ dataBlocks extents ++ external ∨ r.contains b = true := fun b => by
    rw [dataBlocks_append, ← mem_dataBlocks_fresh hr ib]
    simp only [mem_append]
    tauto
  refine hp.trades.trans ⟨fun b hb => ?_, ∅, nofun, hm.weaken (fun b _ => ?_) subset_rfl subset_rfl⟩
  · rcases (hmem b).mp hb with hb | hb
    · exact ⟨howns.contains b hb, .inl hb⟩
    · exact ⟨hr.contains b hb, .inr (hr.clear b hb)⟩
  · rcases Decidable.em (b ∈ dataBlocks extents ++ external) with hin | hout
    · simp [(hmem b).mpr (.inl hin), howns.used b hin]
    · have hnew : decide (b ∈ dataBlocks (extents ++ [freshExtent ib r]) ++ external) = r.contains b := by
        rw [Bool.eq_iff_iff, decide_eq_true_iff, hmem b]
        simp [hout]
      rw [hnew]
      simp [hout]

end

theorem Sound.concat {e : Extent} (hs : Sound extents) (hvalid : e.Valid)
    (hhole : ∀ ib, e.covers ib = true → ib ∉ keys extents) : Sound (extents ++ [e]) where
  valid e' he := by
    rcases mem_append.mp he with he | he
    · exact hs.valid e' he
    · rw [mem_singleton.mp he]
      exact hvalid
  nodup := by
    rw [keys_append]
    refine nodup_append.mpr ⟨hs.nodup, nodup_keys_extent _, fun a ha b hb hab => ?_⟩
    obtain ⟨e', he, hcov⟩ := mem_keys_covers.mp hb
    rw [mem_singleton.mp he] at hcov
    exact hhole b hcov (hab ▸ ha)

section

variable (hp : Patched base old extents₀ lo hi owed s extents external added) (hr : s.fs.Fresh want r)

include hp hr

theorem Patched.sound_fresh (hvalid : (freshExtent ib r).Valid) (hlo : lo ≤ ib) (hfit : ib + want ≤ hi)
    (howed : ∀ j, ib ≤ j → j < ib + want → owed j) : Sound (extents ++ [freshExtent ib r]) := by
  refine hp.stands.sound.concat hvalid fun j hcov hmem => ?_
  rw [covers, Bool.and_eq_true, decide_eq_true_eq, decide_eq_true_eq] at hcov
  obtain ⟨hfirst, hlast⟩ : ib ≤ j ∧ j < ib + r.len := hcov
  have hlen := hr.len_le
  exact (hp.mapped j (by omega) (by omega)).mp hmem (howed j hfirst (by omega))

theorem Patched.grown (hlo : lo ≤ ib) (hfit : ib + want ≤ hi) {extents' : List Extent} {external' : List Nat}
    (hst : Stands s' extents' external') (htrades : base.Trades s'.fs old (dataBlocks extents' ++ external'))
    (hperm : (contents extents').Perm (contents (extents ++ [freshExtent ib r]))) :
    Filling base old extents₀ lo hi (fun j => owed j ∧ ¬(ib ≤ j ∧ j < ib + r.len)) s' := by
  have hlen := hr.len_le
  refine ⟨extents', external', added ++ (freshExtent ib r).cells, hst, htrades, ?_, fun x hx => ?_,
    fun j hj hj' => ?_⟩
  · refine hperm.trans ?_
    rw [contents_append, contents_cons, contents_nil, append_nil, ← append_assoc]
    exact hp.perm.append_right _
  · rcases mem_append.mp hx with hx | hx
    · exact hp.fresh x hx
    · obtain ⟨hcov, -, hkind⟩ := mem_cells.mp hx
      rw [covers, Bool.and_eq_true, decide_eq_true_eq, decide_eq_true_eq] at hcov
      obtain ⟨hfirst, hlast⟩ : ib ≤ x.1 ∧ x.1 < ib + r.len := hcov
      exact ⟨by omega, by omega, hkind⟩
  · have hkeys : j ∈ keys extents' ↔ j ∈ keys extents ∨ ib ≤ j ∧ j < ib + r.len := by
      rw [keys, (hperm.map _).mem_iff, ← keys, keys_append, mem_append, mem_keys_extent]
      rfl
    rw [hkeys, hp.mapped j hj hj']
    by_cases hin : ib ≤ j ∧ j < ib + r.len
    · simp [hin]
    · simp [hin]

theorem insertFresh_filling (hm : s.fs.Moves fs' (fun b => r.contains b || s.fs.blockUsed b) ∅ ∅)
    (hhi : hi ≤ 2 ^ 32 - 1) (hmax : want ≤ maxUnwrittenLen) (hlo : lo ≤ ib) (hfit : ib + want ≤ hi)
    (howed : ∀ j, ib ≤ j → j < ib + want → owed j) :
    (insertFresh g csumSeed ib r.start r.len).Ends { s with fs := fs' }
      (fun _ s' => Filling base old extents₀ lo hi (fun j => owed j ∧ ¬(ib ≤ j ∧ j < ib + r.len)) s') fun _ _ => True := by
  have hst : Stands { s with fs := fs' } extents external := hp.stands.moves hm fun b hb => by simp [hb]
  have hvalid := Fresh.valid hp.stands.steady hr hmax (le_trans hfit hhi)
  have hunfunded : False → fs'.Funds (fs'.layout.systemBids ∪ external.toFinset)
    (externalNodeCount (mergeExtents (extents ++ [freshExtent ib r])).length - external.length) := False.elim
  have hins := @insert_ends g csumSeed _ _ _ _ _ hst (hp.sound_fresh hr hvalid hlo hfit howed) (hp.owns_fresh hr hm) hunfunded
  refine Op.Ends.bind (Q := fun res s' => res.isOk = true →
    Filling base old extents₀ lo hi (fun j => owed j ∧ ¬(ib ≤ j ∧ j < ib + r.len)) s')
    (.attempt (hins.mono (fun _ s' hreach _ => ?_) fun _ _ _ hok => nomatch hok)) fun res s' hres => ?_
  · obtain ⟨extents', external', hst', hperm, htrades⟩ := hreach
    exact hp.grown hr hlo hfit hst' ((hp.trades_fresh hr hm).trans htrades) hperm
  · cases res with
    | ok _ => exact .ret (hres rfl)
    | error e => exact (Op.Ends.any _ s').bind fun _ _ _ => .fail trivial

end

end Step

variable (g : JournalGeometry) (csumSeed : Option UInt32) (bound : AllocBound)

theorem fillHole_ends (hhi : hi ≤ 2 ^ 32 - 1) (goal : Nat) {stop fuel projected : Nat}
    (h : Filling base old extents₀ lo hi owed s) (hlo : lo ≤ ib) (hstop : stop ≤ hi) (hfuel : stop - ib ≤ fuel)
    (howed : ∀ j, ib ≤ j → j < stop → owed j) :
    (fillHole g csumSeed bound goal stop fuel ib projected).Ends s
      (fun step s' => match step with
        | .done _ => Filling base old extents₀ lo hi (fun j => owed j ∧ ¬(ib ≤ j ∧ j < stop)) s'
        | .stopped reached _ => ib ≤ reached ∧ reached < stop ∧
          Filling base old extents₀ lo hi (fun j => owed j ∧ ¬(ib ≤ j ∧ j < reached)) s')
      fun _ _ => True := by
  induction fuel generalizing s ib projected owed with
  | zero => exact .ret (h.congr fun j _ _ => ⟨fun hj => ⟨hj, by omega⟩, fun hj => hj.1⟩)
  | succ fuel ih =>
    unfold fillHole
    split
    · exact .ret (h.congr fun j _ _ => ⟨fun hj => ⟨hj, by omega⟩, fun hj => hj.1⟩)
    next hmore =>
      refine .bind_get ((reserveInsert_filling h bound _).bind fun halt s1 h1 => ?_)
      split
      · exact .ret ⟨le_rfl, not_le.mp hmore,
          h1.congr fun j _ _ => ⟨fun hj => ⟨hj, by omega⟩, fun hj => hj.1⟩⟩
      obtain ⟨extents, external, added, hp⟩ := h1
      have hwant : min (stop - ib) maxUnwrittenLen ≤ stop - ib := min_le_left _ _
      have halloc := Fs.allocBlocks_ends hp.stands.steady.ready hp.stands.steady.wf g
        (min (stop - ib) maxUnwrittenLen) goal
      refine Op.Ends.bind (Q := fun r s2 => s1.fs.Fresh (min (stop - ib) maxUnwrittenLen) r ∧ ∃ fs',
        s2 = { s1 with fs := fs' } ∧ s1.fs.Moves fs' (fun b => r.contains b || s1.fs.blockUsed b) ∅ ∅)
        (.zoom (halloc.mono (fun r fs' hr => ⟨hr.1, fs', rfl, hr.2⟩) fun _ _ _ => trivial)) fun r s2 h2 => ?_
      obtain ⟨hr, fs', rfl, hm⟩ := h2
      have hpos : 0 < r.len := Nat.sub_pos_of_lt hr.pos
      have hlen := hr.len_le
      refine (insertFresh_filling hp hr hm hhi (min_le_right _ _) hlo (by omega)
        (fun j hj hj' => howed j hj (by omega))).bind fun _ s3 h3 => ?_
      refine (ih h3 (by omega) (by omega) fun j hj hj' => ⟨howed j (by omega) hj', by omega⟩).mono
        (fun step s4 h4 => ?_) fun _ _ _ => trivial
      have hjoin : ∀ j c, ib + r.len ≤ c → ((owed j ∧ ¬(ib ≤ j ∧ j < ib + r.len)) ∧ ¬(ib + r.len ≤ j ∧ j < c) ↔
          owed j ∧ ¬(ib ≤ j ∧ j < c)) := fun j c hc => by
        rw [and_assoc]
        exact and_congr_right fun _ => by omega
      cases step with
      | done projected => exact h4.congr fun j _ _ => hjoin j stop (by omega)
      | stopped reached need =>
        obtain ⟨hfirst, hlast, hfill⟩ := h4
        exact ⟨by omega, hlast, hfill.congr fun j _ _ => hjoin j reached hfirst⟩

def AllHave (holes : List HoleRun) (j : Nat) : Prop := ∃ hole ∈ holes, hole.Has j

theorem fillRuns_ends (hhi : hi ≤ 2 ^ 32 - 1) (extents : List Extent) {holes : List HoleRun} {projected : Nat}
    (h : Filling base old extents₀ lo hi (AllHave holes) s) (hin : ∀ hole ∈ holes, lo ≤ hole.start ∧ hole.stop ≤ hi)
    (hapart : holes.Pairwise fun a b => a.stop < b.start) :
    (fillRuns g csumSeed bound extents holes projected).Ends s
      (fun r s' => match r with
        | .filled => Filling base old extents₀ lo hi (fun _ => False) s'
        | .stopped reached _ => lo ≤ reached ∧ reached < hi ∧
          ∃ owed, (∀ j < reached, ¬owed j) ∧ Filling base old extents₀ lo hi owed s')
      fun _ _ => True := by
  induction holes generalizing s projected with
  | nil => exact .ret (h.congr fun j _ _ => by simp [AllHave])
  | cons hole rest ih =>
    obtain ⟨⟨hlo, hstop⟩, hrest⟩ := forall_mem_cons.mp hin
    obtain ⟨hfirst, hapart⟩ := pairwise_cons.mp hapart
    refine (fillHole_ends g csumSeed bound hhi _ h hlo hstop le_rfl fun j hj hj' =>
      ⟨hole, mem_cons_self, hj, hj'⟩).bind fun step s1 h1 => ?_
    cases step with
    | done projected' =>
      refine ih (h1.congr fun j _ _ => ⟨?_, ?_⟩) hrest hapart
      · rintro ⟨⟨a, ha, hj⟩, hno⟩
        rcases mem_cons.mp ha with rfl | ha
        · exact absurd hj hno
        · exact ⟨a, ha, hj⟩
      · rintro ⟨a, ha, hj⟩
        have hlt := hfirst a ha
        exact ⟨⟨a, mem_cons_of_mem _ ha, hj⟩, fun hin => lt_irrefl _
          (lt_of_lt_of_le (lt_trans hin.2 hlt) hj.1)⟩
    | stopped reached need =>
      obtain ⟨hge, hlt, hfill⟩ := h1
      refine .ret ⟨by omega, by omega, _, ?_, hfill⟩
      rintro j hj ⟨⟨a, ha, hhas⟩, hno⟩
      rcases mem_cons.mp ha with rfl | ha
      · exact hno ⟨hhas.1, hj⟩
      · have hnext := hfirst a ha
        exact absurd hhas.1 (by omega)

end Fill

def TreeFs.binding (s : TreeFs) (ib : Nat) : Except Fault (Option (Nat × ExtentKind)) :=
  (s.tree.lookup ib s.fs).1.map (Option.map fun e => (e.start + (ib - e.block), e.kind))

section Exact

variable {s s' : TreeFs} {extents : List Extent} {external : List Nat} {lo hi ib : Nat} {owed : Nat → Prop}
  {base : Fs} {old : List Nat}

theorem Stands.binding_some (h : Stands s extents external) {b : Nat} {kind : ExtentKind} :
    s.binding ib = .ok (some (b, kind)) ↔ (ib, b, kind) ∈ contents extents := by
  rw [binding, h.lookup]
  constructor
  · intro hb
    obtain ⟨e, hfind, heq⟩ := Option.map_eq_some_iff.mp (Except.ok.inj hb)
    obtain ⟨hmem, hcov⟩ := h.sound.find?.mp hfind
    cases heq
    exact mem_contents.mpr ⟨e, hmem, mem_cells.mpr ⟨hcov, rfl, rfl⟩⟩
  · intro hmem
    obtain ⟨e, he, hcell⟩ := mem_contents.mp hmem
    obtain ⟨hcov, hb, hkind⟩ := mem_cells.mp hcell
    rw [h.sound.find?.mpr ⟨he, hcov⟩]
    exact congrArg (Except.ok ∘ some) (Prod.ext hb.symm hkind.symm)

theorem Stands.binding_none (h : Stands s extents external) : s.binding ib = .ok none ↔ ib ∉ keys extents := by
  rw [binding, h.lookup, mem_keys_covers]
  change Except.ok (Option.map _ (extents.find? fun e => e.covers ib)) = _ ↔ _
  rw [Except.ok.injEq, Option.map_eq_none_iff, find?_eq_none]
  simp only [not_exists, not_and]

structure FillsHoles (s s' : TreeFs) (lo hi reached : Nat) : Prop where
  kept : ∀ ib p, s.binding ib = .ok (some p) → s'.binding ib = .ok (some p)
  fresh : ∀ ib b kind, s.binding ib = .ok none → s'.binding ib = .ok (some (b, kind)) →
    kind = .unwritten ∧ lo ≤ ib ∧ ib < hi
  mapped : ∀ ib, lo ≤ ib → ib < reached → ∃ p, s'.binding ib = .ok (some p)

theorem Filling.fillsHoles (h : Stands s extents external) {reached : Nat} (hle : reached ≤ hi)
    (hdone : ∀ j < reached, lo ≤ j → ¬owed j) (hf : Filling base old extents lo hi owed s') : FillsHoles s s' lo hi reached := by
  obtain ⟨extents', external', added, hst, -, hperm, hfresh, hmapped⟩ := hf
  refine ⟨?_, ?_, ?_⟩
  · rintro ib ⟨b, kind⟩ hb
    exact hst.binding_some.mpr (hperm.mem_iff.mpr (mem_append_left _ (h.binding_some.mp hb)))
  · intro ib b kind hnone hb
    rcases mem_append.mp (hperm.mem_iff.mp (hst.binding_some.mp hb)) with hold | hnew
    · exact absurd (mem_map.mpr ⟨_, hold, rfl⟩) (h.binding_none.mp hnone)
    · obtain ⟨hlo, hhi, hkind⟩ := hfresh _ hnew
      exact ⟨hkind, hlo, hhi⟩
  · intro ib hlo hlt
    have hkey := (hmapped ib hlo (lt_of_lt_of_le hlt hle)).mpr (hdone ib hlt hlo)
    obtain ⟨x, hx, rfl⟩ := mem_map.mp hkey
    exact ⟨(x.2.1, x.2.2), hst.binding_some.mpr hx⟩

theorem fillHoles_ends (h : Stands s extents external) (hhi : hi ≤ 2 ^ 32 - 1) (bound : AllocBound) (lo : Nat) :
    (fillHoles g csumSeed lo hi bound).Ends s
      (fun r s' => ∃ owed, Filling s.fs (dataBlocks extents ++ external) extents lo hi owed s' ∧ match r with
        | .filled => ∀ j < hi, lo ≤ j → ¬owed j
        | .stopped reached _ => reached ≤ hi ∧ ∀ j < reached, lo ≤ j → ¬owed j)
      fun _ _ => True := by
  have hfill : ∀ owed : Nat → Prop, (∀ ib, lo ≤ ib → ib < hi → (ib ∈ keys extents ↔ ¬owed ib)) →
      Filling s.fs (dataBlocks extents ++ external) extents lo hi owed s := fun owed hmapped =>
    ⟨extents, external, [], h, .refl h.steady.ready h.owns, by rw [append_nil], nofun, hmapped⟩
  unfold fillHoles
  split
  next hempty =>
    refine .ret ⟨fun j => j ∉ keys extents, hfill _ fun ib _ _ => by rw [not_not], fun j hj hlo => ?_⟩
    exact absurd (le_trans hempty hlo) (not_le.mpr hj)
  · refine .bind_of_eq h.flatten ?_
    dsimp only
    rw [h.ordered.sortByBlock]
    have hstart := hfill (AllHave (computeHoles hi lo extents)) fun ib hlo hlt => by
      rw [AllHave, computeHoles_has h.ordered.sorted, mem_keys_covers]
      simp [hlo, hlt]
    refine (fillRuns_ends g csumSeed bound hhi extents hstart (fun hole hmem => ?_)
      (computeHoles_apart (fun e he => (h.sound.valid e he).pos) hi lo)).mono (fun r s' hr => ?_) fun _ _ h => h
    · have hwithin := computeHoles_within hmem
      exact ⟨hwithin.1, hwithin.2.2⟩
    · cases r with
      | filled => exact ⟨_, hr, fun _ _ _ hf => hf⟩
      | stopped reached need =>
        obtain ⟨-, hlt, owed, hdone, hfill⟩ := hr
        exact ⟨owed, hfill, le_of_lt hlt, fun j hj _ => hdone j hj⟩

theorem fillHoles_one {g : JournalGeometry} {csumSeed : Option UInt32} {r : IdRange} {s1 s2 : TreeFs}
    (h : Stands s extents external) (hlt : lo < hi) {ib : Nat}
    (hholes : computeHoles hi lo extents = [⟨ib, ib + 1⟩])
    (halloc : onFs (Fs.allocBlocks g 1 (allocGoal extents ib)) s = (.ok r, s1)) (hlen : r.len = 1)
    (hins : insert g csumSeed ib r.start 1 .unwritten s1 = (.ok (), s2)) :
    fillHoles g csumSeed lo hi .wholeRange s = (.ok .filled, s2) := by
  have hfuel : ib + 1 - ib = 1 := by omega
  have hfresh : insertFresh g csumSeed ib r.start 1 s1 = (.ok (), s2) := by
    have hattempt : Op.attempt (insert g csumSeed ib r.start 1 .unwritten) s1 = (.ok (.ok ()), s2) := by
      rw [Op.attempt, hins]
    unfold insertFresh
    rw [Op.bind_ok hattempt]
    rfl
  have hfill : fillHole g csumSeed .wholeRange (allocGoal extents ib) (ib + 1) 1 ib extents.length s =
      (.ok (.done (extents.length + 1)), s2) := by
    unfold fillHole
    rw [if_neg (not_le.mpr (Nat.lt_succ_self ib)), Op.get_bind]
    have hreserve : ∀ need, onFs (reserveInsert g .wholeRange need) s = (.ok false, s) := fun _ => rfl
    have hwant : min (ib + 1 - ib) maxUnwrittenLen = 1 := by rw [hfuel]; rfl
    dsimp only
    rw [Op.bind_ok (hreserve _), if_neg (by decide), hwant, Op.bind_ok halloc, hlen, Op.bind_ok hfresh]
    rfl
  unfold fillHoles
  rw [if_neg (not_le.mpr hlt), Op.bind_ok h.flatten]
  dsimp only
  rw [h.ordered.sortByBlock, hholes]
  unfold fillRuns
  dsimp only
  rw [hfuel, Op.bind_ok hfill]
  rfl

end Exact

section Strip

def patchedStrip : List Extent :=
  [⟨0, 1, 8, .written⟩, ⟨1, 1, 20, .unwritten⟩, ⟨2, 2, 10, .written⟩, ⟨5, 2, 13, .written⟩, ⟨8, 1, 16, .written⟩]

def stripAllocated : Except Fault IdRange × TreeFs :=
  TreeFs.onFs (Fs.allocBlocks tight 1 (allocGoal strip 1)) stripFile

def stripPatched : Except Fault TreeDelta × TreeFs := reserialize tight none patchedStrip [] stripAllocated.2

theorem merge_patchedStrip : mergeExtents (strip ++ [⟨1, 1, 20, .unwritten⟩]) = patchedStrip := by
  have hperm : (strip ++ [(⟨1, 1, 20, .unwritten⟩ : Extent)]).Perm patchedStrip := by decide
  have hordered : Ordered patchedStrip := by
    unfold Ordered
    decide
  rw [mergeExtents, hordered.sortByBlock_eq (by decide +kernel) hperm]
  decide +kernel

theorem stripAllocated_ok : stripAllocated = (.ok ⟨20, 21⟩, stripAllocated.2) :=
  eq_ok_of_toOption (r := stripAllocated) (by decide +kernel)

theorem stripAllocated_flatten : flatten stripAllocated.2 = (.ok (strip, []), stripAllocated.2) := by
  have hread : stripAllocated.2.tree.root = inlineLeafRoot strip := rfl
  refine TreeFs.flatten_eq ?_
  rw [hread]
  exact .inline (by decide) (holds_inlineLeafRoot (fun e he => (stripFile_stands.sound.valid e he).toEncodable) (by decide))

end Strip

end Ext4
