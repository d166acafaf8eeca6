import Ext4.Extent.Fill

namespace Ext4

open List

variable {g : JournalGeometry} {csumSeed : Option UInt32}

abbrev BlockMap : Type := Nat → Option (Nat × ExtentKind)

inductive Edit where
  | insert (run : Extent)
  | convertUnwritten (iblock len : Nat)
  | truncateChunk (newSize : Nat) (maxCredits : Option Nat)
  | punchChunk (startBlock endBlock : Nat) (maxCredits : Option Nat)

inductive Edit.Outcome where
  | done
  | truncated (chunk : TruncateChunk)
  | punched (chunk : PunchChunk)

namespace BlockMap

def insert (map : BlockMap) (run : Extent) : BlockMap :=
  fun ib => if run.covers ib then some (run.start + (ib - run.block), run.kind) else map ib

def convert (map : BlockMap) (lo hi : Nat) : BlockMap :=
  fun ib => if lo ≤ ib ∧ ib < hi then (map ib).map fun p => (p.1, .written) else map ib

def truncate (map : BlockMap) (stop : Nat) : BlockMap :=
  fun ib => if ib < stop then map ib else none

def punch (map : BlockMap) (lo hi : Nat) : BlockMap :=
  fun ib => if lo ≤ ib ∧ ib < hi then none else map ib

def Denotes (map : BlockMap) (extents : List Extent) : Prop :=
  ∀ ib b kind, map ib = some (b, kind) ↔ (ib, b, kind) ∈ contents extents

end BlockMap

inductive Edit.Effect : Edit → Edit.Outcome → BlockMap → BlockMap → Prop where
  | insert (run : Extent) (map : BlockMap) : Effect (.insert run) .done map (map.insert run)
  | convertUnwritten (iblock len : Nat) (map : BlockMap) :
    Effect (.convertUnwritten iblock len) .done map (map.convert iblock (iblock + len))
  | truncateChunk (newSize : Nat) (maxCredits : Option Nat) (chunk : TruncateChunk) (map : BlockMap)
    (hwhole : maxCredits = none → chunk.reached ≤ blocksOf newSize) :
    Effect (.truncateChunk newSize maxCredits) (.truncated chunk) map
      (map.truncate (max (blocksOf newSize) chunk.reached))
  | punchChunk (startBlock endBlock : Nat) (maxCredits : Option Nat) (chunk : PunchChunk) (cut : Nat)
    (map : BlockMap) (hcut : startBlock ≤ cut) (hlast : chunk.more = false → cut = startBlock)
    (hwhole : maxCredits = none → chunk.more = false) :
    Effect (.punchChunk startBlock endBlock maxCredits) (.punched chunk) map (map.punch cut endBlock)

inductive Traced : List (Edit × Edit.Outcome) → BlockMap → Prop where
  | empty : Traced [] fun _ => none
  | edit {trace : List (Edit × Edit.Outcome)} {map map' : BlockMap} {edit : Edit} {out : Edit.Outcome} :
    Traced trace map → edit.Effect out map map' → Traced (trace ++ [(edit, out)]) map'

namespace Edit

variable (g : JournalGeometry) (csumSeed : Option UInt32) (policy : DataForgetPolicy)

def run : Edit → TreeOp Outcome
  | .insert run => do
    Ext4.insert g csumSeed run.block run.start run.len run.kind
    Op.ret .done
  | .convertUnwritten iblock len => do
    Ext4.convertUnwritten g csumSeed iblock len
    Op.ret .done
  | .truncateChunk newSize maxCredits => do
    let chunk ← Ext4.truncateChunk g csumSeed policy newSize maxCredits
    Op.ret (.truncated chunk)
  | .punchChunk startBlock endBlock maxCredits => do
    let chunk ← Ext4.punchChunk g csumSeed policy startBlock endBlock maxCredits
    Op.ret (.punched chunk)

def Admissible (s : TreeFs) : Edit → Prop
  | .insert run => run.Valid ∧ (∀ ib, run.covers ib = true → s.binding ib = .ok none) ∧
    s.fs.Owns (dataBlocks [run]) ∧ ∀ b ∈ dataBlocks [run], ¬s.Maps b ∧ ¬s.Node b
  | .convertUnwritten _ len => 0 < len
  | .truncateChunk newSize _ => blocksOf newSize < 2 ^ 32
  | .punchChunk _ _ _ => True

end Edit

inductive Edited (g : JournalGeometry) (csumSeed : Option UInt32) (policy : DataForgetPolicy) :
    List (Edit × Edit.Outcome) → TreeFs → Prop where
  | empty {s : TreeFs} : s.fs.Steady → s.tree = .empty → Edited g csumSeed policy [] s
  | edit {trace : List (Edit × Edit.Outcome)} {s s' : TreeFs} {edit : Edit} {out : Edit.Outcome} :
    Edited g csumSeed policy trace s → edit.Admissible s → edit.run g csumSeed policy s = (.ok out, s') →
    Edited g csumSeed policy (trace ++ [(edit, out)]) s'
  | rest {trace : List (Edit × Edit.Outcome)} {s s' : TreeFs} :
    Edited g csumSeed policy trace s → Resumes 0 s s' → Edited g csumSeed policy trace s'

section Maps

variable {s s' : TreeFs} {map : BlockMap} {extents extents' : List Extent} {external : List Nat}

namespace BlockMap

theorem Denotes.perm (h : map.Denotes extents) (hperm : (contents extents').Perm (contents extents)) :
    map.Denotes extents' := by
  intro ib b kind
  rw [h ib b kind, hperm.mem_iff]

theorem Denotes.insert {run : Extent} (h : map.Denotes extents)
    (hhole : ∀ ib, run.covers ib = true → ib ∉ keys extents) :
    (map.insert run).Denotes (extents ++ [run]) := by
  intro ib b kind
  rw [contents_append, contents_cons, contents_nil, append_nil, mem_append, Extent.mem_cells,
    ← h ib b kind, BlockMap.insert]
  split
  next hcov =>
    have hfree : map ib ≠ some (b, kind) := fun hmap =>
      hhole ib hcov (mem_map.mpr ⟨_, (h ib b kind).mp hmap, rfl⟩)
    simp only [hcov, hfree, false_or, true_and, Option.some.injEq, Prod.mk.injEq, eq_comm]
  next hcov => simp only [hcov, Bool.false_eq_true, false_and, or_false]

theorem mem_map_mark {bindings : List Binding} {lo hi ib b : Nat} {kind : ExtentKind} :
    (ib, b, kind) ∈ bindings.map (mark lo hi) ↔
      ∃ kind', (ib, b, kind') ∈ bindings ∧ kind = if lo ≤ ib ∧ ib < hi then .written else kind' := by
  have hmark : ∀ kind', mark lo hi (ib, b, kind') =
      (ib, b, if lo ≤ ib ∧ ib < hi then .written else kind') := fun kind' => by
    simp only [mark, inRange_iff]
    split <;> rfl
  rw [mem_map]
  constructor
  · rintro ⟨⟨ib', b', kind'⟩, hmem, heq⟩
    have hib := congrArg Prod.fst heq
    have hb := congrArg (fun x => x.2.1) heq
    rw [key_mark] at hib
    dsimp only at hib hb
    rw [block_mark] at hb
    dsimp only at hb
    subst hib hb
    rw [hmark] at heq
    exact ⟨kind', hmem, (congrArg (fun x => x.2.2) heq).symm⟩
  · rintro ⟨kind', hmem, rfl⟩
    exact ⟨_, hmem, hmark kind'⟩

section

variable (h : map.Denotes extents)

include h

theorem Denotes.convert {lo hi : Nat} (hperm : (contents extents').Perm ((contents extents).map (mark lo hi))) :
    (map.convert lo hi).Denotes extents' := by
  intro ib b kind
  simp only [hperm.mem_iff, mem_map_mark, ← h ib b, BlockMap.convert]
  split
  next hin =>
    rw [Option.map_eq_some_iff]
    constructor
    · rintro ⟨⟨b', kind'⟩, hmap, heq⟩
      cases heq
      exact ⟨kind', hmap, rfl⟩
    · rintro ⟨kind', hmap, rfl⟩
      exact ⟨_, hmap, rfl⟩
  next hout =>
    constructor
    · intro hmap
      exact ⟨kind, hmap, rfl⟩
    · rintro ⟨kind', hmap, rfl⟩
      exact hmap

theorem Denotes.truncate {stop : Nat} (hperm : (contents extents').Perm ((contents extents).filter (below stop))) :
    (map.truncate stop).Denotes extents' := by
  intro ib b kind
  rw [hperm.mem_iff, mem_filter, below, decide_eq_true_eq, ← h ib b kind, BlockMap.truncate]
  split
  next hlt => simp only [hlt, and_true]
  next hge => simp only [hge, and_false, reduceCtorEq]

theorem Denotes.punch {lo hi : Nat}
    (hperm : (contents extents').Perm ((contents extents).filter fun x => !inRange lo hi x)) :
    (map.punch lo hi).Denotes extents' := by
  intro ib b kind
  rw [hperm.mem_iff, mem_filter, Bool.not_eq_true', Bool.eq_false_iff, Ne, inRange_iff, ← h ib b kind,
    BlockMap.punch]
  split
  next hin => simp only [hin, not_true_eq_false, and_false, reduceCtorEq, and_self]
  next hout => simp only [hout, not_false_eq_true, and_true]

theorem Denotes.binding (hst : Stands s extents external) (ib : Nat) :
    s.binding ib = .ok (map ib) := by
  cases hmap : map ib with
  | none =>
    refine hst.binding_none.mpr fun hmem => ?_
    obtain ⟨⟨ib', b, kind⟩, hx, heq⟩ := mem_map.mp hmem
    rw [← (show ib' = ib from heq), (h ib' b kind).mpr hx] at hmap
    cases hmap
  | some p => exact hst.binding_some.mpr ((h ib p.1 p.2).mp hmap)

end

end BlockMap

theorem Stands.empty (hsteady : s.fs.Steady) (htree : s.tree = .empty) : Stands s [] [] where
  steady := hsteady
  shaped := by
    rw [htree]
    exact .inline (by decide) (holds_inlineLeafRoot (fun _ he => absurd he not_mem_nil) (by decide))
  sound := ⟨fun _ he => absurd he not_mem_nil, nodup_nil⟩
  ordered := .nil
  owns := ⟨nodup_nil, fun _ hb => absurd hb not_mem_nil, fun _ hb => absurd hb not_mem_nil,
    fun _ hb => absurd hb not_mem_nil⟩
  sectors := by rw [htree]; rfl

def Refines (map : BlockMap) (s : TreeFs) : Prop :=
  ∃ extents external, Stands s extents external ∧ map.Denotes extents

theorem insert_refines {run : Extent} (h : Stands s extents external) (hmap : map.Denotes extents)
    (hok : (Edit.insert run).Admissible s) :
    (insert g csumSeed run.block run.start run.len run.kind).Ends s
      (fun _ s' => Refines (map.insert run) s') fun _ _ => True := by
  obtain ⟨hvalid, hhole, howns, hfree⟩ := hok
  have hkeys : ∀ ib, run.covers ib = true → ib ∉ keys extents := fun ib hcov =>
    h.binding_none.mp (hhole ib hcov)
  have hsound : Sound (extents ++ [run]) := h.sound.concat hvalid hkeys
  have hblocks : s.fs.Owns (dataBlocks (extents ++ [run]) ++ external) := by
    have hperm : (dataBlocks [run] ++ (dataBlocks extents ++ external)).Perm
        (dataBlocks (extents ++ [run]) ++ external) := by
      rw [dataBlocks_append, ← append_assoc]
      exact perm_append_comm.append_right _
    refine Fs.Owns.perm (howns.append h.owns fun b hb hb' => ?_) hperm
    rcases mem_append.mp hb' with hb' | hb'
    · exact (hfree b hb).1 (h.maps.mpr hb')
    · exact (hfree b hb).2 ⟨extents, external, h.read, hb'⟩
  refine (insert_ends h hsound hblocks False.elim).mono (fun _ s' hr => ?_)
    fun _ _ _ => trivial
  obtain ⟨extents', external', hst, hperm, -⟩ := hr
  exact ⟨extents', external', hst, (hmap.insert hkeys).perm hperm⟩

variable {edit : Edit} {out : Edit.Outcome} {trace : List (Edit × Edit.Outcome)}

theorem Edit.run_ends (h : Stands s extents external) (hmap : map.Denotes extents) (hok : edit.Admissible s)
    (g : JournalGeometry) (csumSeed : Option UInt32) (policy : DataForgetPolicy) :
    (edit.run g csumSeed policy).Ends s
      (fun out s' => ∃ map', edit.Effect out map map' ∧ Refines map' s') fun _ _ => True := by
  cases edit with
  | insert run =>
    exact (insert_refines h hmap hok).bind fun _ s' hr => .ret ⟨_, .insert run map, hr⟩
  | convertUnwritten iblock len =>
    refine ((convertUnwritten_ends h hok False.elim).mono (fun _ _ hr => hr)
      fun _ _ _ => trivial).bind fun _ s' hr => .ret ?_
    obtain ⟨extents', external', hst, hperm, -⟩ := hr
    exact ⟨_, .convertUnwritten iblock len map, extents', external', hst, hmap.convert hperm⟩
  | truncateChunk newSize maxCredits =>
    refine ((truncateChunk_ends h False.elim newSize maxCredits).mono (fun _ _ hr => hr)
      fun _ _ _ => trivial).bind fun chunk s' hr => .ret ?_
    obtain ⟨⟨extents', external', hst, hperm, -⟩, hwhole⟩ := hr
    rw [keepBlocks, Nat.mod_eq_of_lt hok] at hperm hwhole
    exact ⟨_, .truncateChunk newSize maxCredits chunk map hwhole, extents', external', hst, hmap.truncate hperm⟩
  | punchChunk startBlock endBlock maxCredits =>
    refine ((punchChunk_ends h False.elim maxCredits).mono (fun _ _ hr => hr)
      fun _ _ _ => trivial).bind fun chunk s' hr => .ret ?_
    obtain ⟨cut, hcut, hlast, hwhole, extents', external', hst, hperm, -⟩ := hr
    exact ⟨_, .punchChunk startBlock endBlock maxCredits chunk cut map hcut hlast hwhole, extents', external', hst,
      hmap.punch hperm⟩

theorem Edited.refines {g : JournalGeometry} {csumSeed : Option UInt32} {policy : DataForgetPolicy}
    (h : Edited g csumSeed policy trace s) : ∃ map, Traced trace map ∧ Refines map s := by
  induction h with
  | empty hsteady htree =>
    refine ⟨_, .empty, [], [], .empty hsteady htree, fun ib b kind => ?_⟩
    simp only [contents_nil, not_mem_nil, reduceCtorEq]
  | edit _ hok hrun ih =>
    obtain ⟨map, htraced, extents, external, hst, hmap⟩ := ih
    obtain ⟨map', heffect, hrefines⟩ := (Edit.run_ends hst hmap hok g csumSeed policy).of_ok hrun
    exact ⟨map', .edit htraced heffect, hrefines⟩
  | rest _ hrest ih =>
    obtain ⟨map, htraced, extents, external, hst, hmap⟩ := ih
    exact ⟨map, htraced, extents, external, hrest.stands hst, hmap⟩

end Maps

section Blank

variable {s : TreeFs} {extents : List Extent}

theorem insert_blank (hroot : s.tree.root = inlineLeafRoot []) (e : Extent) (g : JournalGeometry)
    (csumSeed : Option UInt32) :
    insert g csumSeed e.block e.start e.len e.kind s =
      (.ok (), { s with tree := ⟨inlineLeafRoot [e], (s.tree.sectorCount + (e.len + 0 : Int) * sectorsPerBlock).toNat,
        true⟩ }) := by
  have hflat : TreeFs.flatten s = (.ok ([], []), s) := by
    refine TreeFs.flatten_eq ?_
    rw [hroot]
    exact .inline (by decide) (holds_inlineLeafRoot (fun _ he => absurd he not_mem_nil) (by decide))
  have hmerge : mergeExtents ([] ++ [e]) = [e] := by
    rw [nil_append, mergeExtents, Ordered.sortByBlock (pairwise_singleton _ e)]
    rfl
  unfold insert
  rw [Op.bind_ok hflat]
  dsimp only
  rw [hmerge, Op.bind_ok (reserialize_inline_eq (Nat.le_of_ble_eq_true rfl))]
  rfl

def blankFile : TreeFs := ⟨.empty, stripVolume.bearing tight fun _ => none⟩

def reserved : Extent := ⟨0, 4, 8, .unwritten⟩

theorem reserved_valid : reserved.Valid := by decide

def reservedFile : TreeFs := ⟨⟨inlineLeafRoot [reserved], 32, true⟩, stripVolume.bearing tight fun _ => none⟩

def shattered : List Extent := [⟨0, 2, 8, .unwritten⟩, ⟨2, 0, 10, .written⟩, ⟨2, 2, 10, .unwritten⟩]

theorem blankFile_steady : blankFile.fs.Steady := by
  have hst : Stands (stripVolume.holder tight (fun _ => none) (inlineLeafRoot []) [] []) [] [] :=
    Specimen.stands_inline (by decide) (by decide) (by decide) (by decide) (by decide)
  exact hst.steady

theorem insert_blankFile : insert tight none 0 8 4 .unwritten blankFile = (.ok (), reservedFile) :=
  insert_blank rfl reserved tight none

theorem reservedFile_flatten : TreeFs.flatten reservedFile = (.ok ([reserved], []), reservedFile) :=
  TreeFs.flatten_eq (.inline (by decide) (holds_inlineLeafRoot (by simpa using reserved_valid.toEncodable) (by decide)))

theorem convert_reservedFile {lo len : Nat} (pieces : List Extent)
    (hany : [reserved].any (fun e => e.isUnwritten && e.overlapsRange lo (lo + len)) = true)
    (hcut : [reserved].flatMap (Extent.convert lo (lo + len)) = pieces) (ho : Ordered pieces)
    (hmerge : mergeRuns pieces = pieces) (hlen : pieces.length ≤ inlineMax) :
    convertUnwritten tight none lo len reservedFile =
      (.ok (), ⟨⟨inlineLeafRoot pieces, 32, true⟩, stripVolume.bearing tight fun _ => none⟩) := by
  unfold convertUnwritten
  rw [Op.bind_ok reservedFile_flatten]
  dsimp only
  rw [if_pos hany, hcut, mergeExtents, ho.sortByBlock, hmerge, Op.bind_ok (reserialize_inline_eq hlen)]
  rfl

def written : List Extent := [⟨0, 1, 8, .unwritten⟩, ⟨1, 2, 9, .written⟩, ⟨3, 1, 11, .unwritten⟩]

def writtenFile : TreeFs := ⟨⟨inlineLeafRoot written, 32, true⟩, stripVolume.bearing tight fun _ => none⟩

theorem reserved_admissible : (Edit.insert reserved).Admissible blankFile := by
  have hblank := Stands.empty blankFile_steady rfl
  refine ⟨reserved_valid, fun ib _ => hblank.binding_none.mpr not_mem_nil,
    Specimen.owns (by decide) (by decide), fun b _ => ⟨fun hmaps => ?_, ?_⟩⟩
  · exact absurd (hblank.maps.mp hmaps) not_mem_nil
  · rintro ⟨extents, external, hread, hb⟩
    cases hblank.read.symm.trans hread
    exact absurd hb not_mem_nil

end Blank

end Ext4
