import Ext4.Extent.Fill

namespace Ext4

open List

def logBlockUnmapped : Fault := .error .euclean "journal inode has an unmapped (hole/unwritten) block"

-- the source loops while `i < nblocks`, here for at most `fuel` runs
def mapAllBlocks (tree : ExtentTree) (nblocks : Nat) : Nat → Nat → FsOp (List Nat)
  | 0, i => if nblocks ≤ i then Op.ret [] else Op.fail .spin
  | fuel + 1, i =>
    if nblocks ≤ i then Op.ret []
    else do
      let found ← tree.lookup i
      match found with
      | none => Op.fail logBlockUnmapped
      | some e =>
        if e.isUnwritten then Op.fail logBlockUnmapped
        else do
          let run := min (e.len - (i - e.block)) (nblocks - i)
          let rest ← mapAllBlocks tree nblocks fuel (i + run)
          Op.ret (range' (e.start + (i - e.block)) run ++ rest)

section LogMap

variable {s : TreeFs} {extents : List Extent} {external : List Nat} {nblocks fuel i : Nat}

def Spells (extents : List Extent) (map : List Nat) (i nblocks : Nat) : Prop :=
  map.length = nblocks - i ∧ ∀ k < nblocks - i, ∃ b, map[k]? = some b ∧ (i + k, b, .written) ∈ contents extents

theorem Spells.prepend {e : Extent} {rest : List Nat} {n : Nat} (he : e ∈ extents) (hkind : e.kind = .written)
    (hlo : e.block ≤ i) (hhi : i + n ≤ e.stop) (hn : i + n ≤ nblocks) (h : Spells extents rest (i + n) nblocks) :
    Spells extents (range' (e.start + (i - e.block)) n ++ rest) i nblocks := by
  obtain ⟨hlen, hrest⟩ := h
  refine ⟨by simp; omega, fun k hk => ?_⟩
  by_cases hkn : k < n
  · refine ⟨e.start + (i + k - e.block), ?_, ?_⟩
    · rw [getElem?_append_left (by simpa using hkn), getElem?_range' hkn]
      congr 1
      omega
    · exact mem_contents_iff.mpr ⟨e, he, by omega, by omega, rfl, hkind.symm⟩
  · obtain ⟨b, hb, hmem⟩ := hrest (k - n) (by omega)
    refine ⟨b, ?_, ?_⟩
    · rw [getElem?_append_right (by simpa using hkn), length_range', hb]
    · rwa [show i + k = i + n + (k - n) by omega]

theorem mapAllBlocks_cases (h : Stands s extents external) (hf : nblocks - i ≤ fuel) :
    (∃ map, mapAllBlocks s.tree nblocks fuel i s.fs = (.ok map, s.fs) ∧ Spells extents map i nblocks) ∨
      mapAllBlocks s.tree nblocks fuel i s.fs = (.error logBlockUnmapped, s.fs) ∧
        ∃ k, i ≤ k ∧ k < nblocks ∧ ∀ b, (k, b, ExtentKind.written) ∉ contents extents := by
  induction fuel generalizing i with
  | zero =>
    refine .inl ⟨[], ?_, by simp; omega, fun k hk => by omega⟩
    rw [mapAllBlocks, if_pos (by omega)]
    rfl
  | succ fuel ih =>
    unfold mapAllBlocks
    by_cases hle : nblocks ≤ i
    · refine .inl ⟨[], ?_, by simp; omega, fun k hk => by omega⟩
      rw [if_pos hle]
      rfl
    · rw [if_neg hle, Op.bind_ok (h.lookup i)]
      cases hfind : extents.find? fun e => e.covers i with
      | none =>
        refine .inr ⟨rfl, i, le_rfl, by omega, fun b hmem => ?_⟩
        obtain ⟨e, he, hlo, hhi, -⟩ := mem_contents_iff.mp hmem
        exact find?_eq_none.mp hfind e he (by simpa [Extent.covers] using ⟨hlo, hhi⟩)
      | some e =>
        obtain ⟨he, hcov⟩ := h.sound.find?.mp hfind
        have hspan : e.block ≤ i ∧ i < e.block + e.len := by simpa [Extent.covers] using hcov
        cases hkind : e.kind with
        | unwritten =>
          refine .inr ⟨by simp [Extent.isUnwritten, hkind]; rfl, i, le_rfl, by omega, fun b hmem => ?_⟩
          have hbound := h.binding_some.mpr hmem
          simp [TreeFs.binding, h.lookup, hfind, Except.map, hkind] at hbound
        | written =>
          have hn : 0 < min (e.len - (i - e.block)) (nblocks - i) := by omega
          generalize hrun : min (e.len - (i - e.block)) (nblocks - i) = n at hn
          have hstop : i + n ≤ e.stop ∧ i + n ≤ nblocks := by
            simp only [Extent.stop]
            omega
          dsimp only
          rw [if_neg (by simp [Extent.isUnwritten, hkind]), hrun]
          rcases ih (i := i + n) (by omega) with ⟨map, hmap, hspells⟩ | ⟨hfail, k, hik, hk, hnone⟩
          · exact .inl ⟨_, by rw [Op.bind_ok hmap]; rfl, hspells.prepend he hkind hspan.1 hstop.1 hstop.2⟩
          · exact .inr ⟨by rw [Op.bind_error hfail], k, by omega, hk, hnone⟩

def TreeFs.LogMap (s : TreeFs) (nblocks : Nat) (map : List Nat) : Prop :=
  map.length = nblocks ∧ map.Nodup ∧
    ∀ i < nblocks, ∃ b, map[i]? = some b ∧ s.binding i = .ok (some (b, .written))

theorem Stands.logMap (h : Stands s extents external) {map : List Nat} (hmap : Spells extents map 0 nblocks) :
    s.LogMap nblocks map := by
  obtain ⟨hlen, hmap⟩ := hmap
  simp only [Nat.sub_zero, zero_add] at hlen hmap
  refine ⟨hlen, ?_, fun i hi => ?_⟩
  · refine nodup_iff_getElem?_ne_getElem?.mpr fun i j hij hj heq => ?_
    obtain ⟨b, hb, hmem⟩ := hmap i (by omega)
    obtain ⟨c, hc, hmem'⟩ := hmap j (by omega)
    cases hb.symm.trans (heq.trans hc)
    have hsame := inj_on_of_nodup_map (nodup_append.mp h.owns.nodup).1 hmem hmem' rfl
    exact hij.ne (congrArg Prod.fst hsame)
  · obtain ⟨b, hb, hmem⟩ := hmap i hi
    exact ⟨b, hb, h.binding_some.mpr hmem⟩

end LogMap

theorem log_map_follows_extents {s : TreeFs} {extents : List Extent} {external : List Nat}
    (h : Stands s extents external) (nblocks : Nat) :
    (∃ map, mapAllBlocks s.tree nblocks nblocks 0 s.fs = (.ok map, s.fs) ∧ s.LogMap nblocks map) ∨
      mapAllBlocks s.tree nblocks nblocks 0 s.fs = (.error logBlockUnmapped, s.fs) ∧
        ∃ i < nblocks, ∀ b, s.binding i ≠ .ok (some (b, .written)) := by
  rcases mapAllBlocks_cases (i := 0) h (le_refl nblocks) with ⟨map, hrun, hmap⟩ | ⟨hfail, k, -, hk, hnone⟩
  · exact .inl ⟨map, hrun, h.logMap hmap⟩
  · exact .inr ⟨hfail, k, hk, fun b hb => hnone b (h.binding_some.mp hb)⟩

theorem log_map_follows_extents_strip :
    ∃ map, mapAllBlocks stripFile.tree 1 1 0 stripFile.fs = (.ok map, stripFile.fs) ∧ stripFile.LogMap 1 map := by
  have hbound : stripFile.binding 0 = .ok (some (8, .written)) := stripFile_stands.binding_some.mpr (by decide)
  refine (log_map_follows_extents stripFile_stands 1).resolve_right ?_
  rintro ⟨-, i, hi, hnone⟩
  obtain rfl : i = 0 := by omega
  exact hnone 8 hbound

end Ext4
