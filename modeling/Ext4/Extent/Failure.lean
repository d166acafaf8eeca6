import Ext4.Alloc.Specimen
import Ext4.Extent.Mutate

namespace Ext4

open Bytes Fs List Op Specimen

variable {s s' : TreeFs} {extents : List Extent} {external : List Nat} {funded grows : Prop} {g : JournalGeometry}
  {csumSeed : Option UInt32} {e : Extent} {err : Fault} {fs : Fs} {policy : DataForgetPolicy}

theorem Foiled.lookup (hfail : Foiled s funded grows s') (h : Stands s extents external) (hf : funded)
    (habort : s'.fs.aborted = false) (ib : Nat) :
    (s'.tree.lookup ib s'.fs).1 = (s.tree.lookup ib s.fs).1 := by
  rcases hfail.kept hf with hno | ⟨htree, ⟨X, hX, hmoves⟩, -⟩
  · rw [habort] at hno
    cases hno
  · have hshape : Shaped s'.fs.image s'.tree.root extents external := by
      rw [htree]
      refine h.shaped.congr fun b hb => ?_
      have hown := mem_append_right (dataBlocks extents) hb
      have hout : b ∉ X := fun hin => by
        have hclear := (hX b hin).2
        rw [h.owns.used b hown] at hclear
        cases hclear
      exact hmoves.image b (h.owns.system b hown) hout hout
    rw [lookup_eq hshape h.ordered, h.lookup]

theorem insert_refused {merged : List Extent} (h : Stands s extents external)
    (hmerge : mergeExtents (extents ++ [e]) = merged)
    (hrun : reserialize g csumSeed merged external s = (.error err, s')) :
    insert g csumSeed e.block e.start e.len e.kind s = (.error err, s') := by
  unfold insert
  rw [bind_ok h.flatten]
  dsimp only
  rw [hmerge]
  exact bind_error hrun

def spread : List Extent := [⟨0, 1, 5, .written⟩, ⟨2, 1, 7, .written⟩, ⟨4, 1, 9, .written⟩, ⟨6, 1, 11, .written⟩]

def full : Specimen := ⟨16, 16, 8, Specimen.taken_16, Specimen.full_16, Specimen.bits_16⟩

def spreadFile : TreeFs := full.holder Specimen.wide (fun _ => none) (inlineLeafRoot spread) spread []

theorem spreadFile_stands : Stands spreadFile spread [] :=
  stands_inline (by decide) (by decide) (by decide) (by decide) (by decide)

def fifth : Except Fault Unit × TreeFs := insert Specimen.wide none 8 13 1 .written spreadFile

section Shelf

def shelf : List Extent := (List.range 341).map fun i => ⟨2 * i + 1, 1, 10 + i, .written⟩

def shelfNodes : Nat → Option Block
  | 5 => some (leafNode none (shelf.take 340))
  | 6 => some (leafNode none (shelf.drop 340))
  | _ => none

def shelfVolume : Specimen := ⟨512, 400, 4, by decide, by decide, by decide⟩

def shelfFile : TreeFs :=
  shelfVolume.holder .small shelfNodes (indexRoot [⟨1, 5⟩, ⟨681, 6⟩] 1) shelf [5, 6]

theorem keys_shelf : keys shelf = (range 341).map fun i => 2 * i + 1 := by
  simp [keys, contents, shelf, Extent.cells, flatMap_map, ← map_eq_flatMap]

theorem dataBlocks_shelf : dataBlocks shelf = (range 341).map fun i => 10 + i := by
  simp [dataBlocks, contents, shelf, Extent.cells, flatMap_map, ← map_eq_flatMap]

theorem shelf_sound : Sound shelf where
  valid e he := by
    obtain ⟨i, hi, rfl⟩ := mem_map.mp he
    rw [mem_range] at hi
    refine ⟨⟨Nat.one_pos, ?_, ?_, (by decide : 1 ≤ maxWrittenLen)⟩, ?_, ?_⟩
    · dsimp only
      omega
    · dsimp only
      omega
    · dsimp only [Extent.stop]
      omega
    · dsimp only
      omega
  nodup := by
    rw [keys_shelf]
    exact nodup_range.map fun i j h => by simpa using h

theorem shelf_ordered : Ordered shelf := by
  refine pairwise_map.mpr (pairwise_lt_range.imp fun {i j} h => ?_)
  change 2 * i + 1 + 1 ≤ 2 * j + 1
  omega

theorem shelfFile_stands : Stands shelfFile shelf [5, 6] := by
  have hplan : leafPlan shelf [5, 6] = [(shelf.take 340, 5), (shelf.drop 340, 6)] := by decide +kernel
  have hfits : ∀ e ∈ shelf, e.Encodable := fun e he => (shelf_sound.valid e he).toEncodable
  have hrange : ∀ b ∈ dataBlocks shelf, 10 ≤ b ∧ b < 351 := fun b hb => by
    rw [dataBlocks_shelf] at hb
    obtain ⟨i, hi, rfl⟩ := mem_map.mp hb
    rw [mem_range] at hi
    omega
  refine stands (.leaves (by decide +kernel) (by decide +kernel) (by decide) ?_ ?_) shelf_sound
    shelf_ordered ?_ fun b hb => ?_
  · rw [hplan]
    exact holds_indexRoot (by simp [ExtentIdx.Fits]) (by decide) (by decide)
  · rw [hplan]
    intro p hp
    simp only [mem_cons, not_mem_nil, or_false] at hp
    rcases hp with rfl | rfl
    · exact ⟨_, bearing_image 5,
        holds_leafNode (fun e he => hfits e (mem_of_mem_take he)) (by decide +kernel)⟩
    · have hlast : Holds (extentCell 4096) 0 (leafNode none (shelf.drop 340)) (shelf.drop 340) :=
        holds_leafNode (fun e he => hfits e (mem_of_mem_drop he)) (by decide +kernel)
      have himage : (shelfVolume.bearing .small shelfNodes).image 6 =
          some (leafNode none (shelf.drop 340)) := bearing_image 6
      dsimp only
      exact ⟨_, himage, hlast⟩
  · refine nodup_append.mpr ⟨?_, by decide, fun b hb c hc => ?_⟩
    · rw [dataBlocks_shelf]
      exact nodup_range.map fun i j h => by simpa using h
    · have hlo := (hrange b hb).1
      simp only [mem_cons, not_mem_nil, or_false] at hc
      omega
  · change 5 ≤ b ∧ b < 400
    rcases mem_append.mp hb with hb | hb
    · have hlo := hrange b hb
      omega
    · simp only [mem_cons, not_mem_nil, or_false] at hb
      omega

def crowding : FsOp WriteAccess := do
  let _ ← Fs.getWriteAccess .small 7
  let _ ← Fs.getWriteAccess .small 8
  Fs.getWriteAccess .small 9

def shelfCrowded : TreeFs := { shelfFile with fs := (crowding shelfFile.fs).2 }

theorem shelfCrowded_stands : Stands shelfCrowded shelf [5, 6] := by
  have hready := shelfFile_stands.steady.ready
  have hends : crowding.Leaves shelfFile.fs fun fs => ∃ T, shelfFile.fs.Evolves fs shelfFile.fs.image T := by
    have hstep : ∀ {fs : Fs} {T : Finset Nat} (b : Nat), shelfFile.fs.Evolves fs shelfFile.fs.image T →
        (Fs.getWriteAccess .small b).Leaves fs fun fs' =>
          ∃ T, shelfFile.fs.Evolves fs' shelfFile.fs.image T := fun b hev => by
      have himage := funext hev.image
      have hends := getWriteAccess_ends (g := .small) hev.ready b
      rw [himage] at hends
      exact hends.mono (fun _ fs' h => ⟨_, hev.trans h.1⟩) fun _ fs' h => ⟨_, hev.trans h.1⟩
    refine (hstep 7 (.refl hready)).bind fun _ fs1 h1 => ?_
    obtain ⟨_, h1⟩ := h1
    refine (hstep 8 h1).bind fun _ fs2 h2 => ?_
    obtain ⟨_, h2⟩ := h2
    exact hstep 9 h2
  obtain ⟨T, hev⟩ : ∃ T, shelfFile.fs.Evolves shelfCrowded.fs shelfFile.fs.image T := by
    cases hrun : crowding shelfFile.fs with
    | mk r fs =>
      have hfs : shelfCrowded.fs = fs := by rw [shelfCrowded, hrun]
      rw [hfs]
      cases r with
      | ok a => exact hends.of_ok hrun
      | error e => exact hends.of_error hrun
  exact shelfFile_stands.evolves hev fun _ _ => rfl

def front : Extent := ⟨0, 1, 360, .written⟩

theorem front_below : ∀ e ∈ shelf, front.stop ≤ e.block := by
  intro e he
  obtain ⟨i, -, rfl⟩ := mem_map.mp he
  exact Nat.le_add_left 1 (2 * i)

theorem merge_front : mergeExtents (shelf ++ [front]) = front :: shelf := by
  have hordered : Ordered (front :: shelf) := pairwise_cons.mpr ⟨front_below, shelf_ordered⟩
  have hsound : Sound (front :: shelf) := by
    refine ⟨forall_mem_cons.mpr ⟨by decide, shelf_sound.valid⟩, ?_⟩
    change (0 :: keys shelf).Nodup
    refine nodup_cons.mpr ⟨fun hmem => ?_, shelf_sound.nodup⟩
    rw [keys_shelf] at hmem
    obtain ⟨i, -, hi⟩ := mem_map.mp hmem
    omega
  rw [mergeExtents, hordered.sortByBlock_eq hsound perm_append_comm]
  decide +kernel

def upset : Except Fault Unit × TreeFs := insert .small none 0 360 1 .written shelfCrowded

theorem acquire_pool (goal : Nat) (s : TreeFs) :
    TreeFs.onFs (acquireMetaBlocks g [5, 6] 2 goal) s = (.ok ([5, 6], []), s) := rfl

theorem orRollback_nil {α : Type} {m : FsOp α} {fs' : Fs}
    (h : m fs = (.error err, fs')) : orRollback g [] m fs = (.error err, fs') := by
  have hattempt : attempt m fs = (.ok (.error err), fs') := by rw [attempt, h]
  unfold orRollback
  rw [bind_ok hattempt]
  rfl

theorem second_leaf_refused {a b : List Extent}
    (hok : (writeLeafNode .small none 5 a shelfCrowded.fs).1.isOk = true)
    (herr : (writeLeafNode .small none 6 b (writeLeafNode .small none 5 a shelfCrowded.fs).2).1.isOk = false) :
    ∃ err fs, orRollback .small []
        (each (fun p => writeLeafNode .small none p.2 p.1) [(a, 5), (b, 6)]) shelfCrowded.fs =
          (.error err, fs) ∧
      fs = (writeLeafNode .small none 6 b (writeLeafNode .small none 5 a shelfCrowded.fs).2).2 ∧
      fs.image 5 = some (leafNode none a) := by
  obtain ⟨_, hok⟩ := eq_ok hok
  obtain ⟨err, herr⟩ := eq_error herr
  have hfirst := (writeNode_ends shelfCrowded_stands.steady.ready 5 (leafNode none a)).of_ok hok
  have hsecond := (writeNode_ends hfirst.1.ready 6 (leafNode none b)).of_error herr
  exact ⟨err, _, orRollback_nil ((bind_ok hok).trans (bind_error herr)), rfl, (hsecond.2.2 5).trans hfirst.2⟩

theorem upset_eq : ∃ err fs, upset = (.error err, { shelfCrowded with fs := fs }) ∧ fs.aborted = false ∧
    fs.image 5 = some (leafNode none (front :: shelf.take 339)) := by
  have hchunks : (((front :: shelf).chunks leafMax).zip [5, 6]) =
      [(front :: shelf.take 339, 5), (shelf.drop 339, 6)] := by decide +kernel
  obtain ⟨err, fs, hwrite, hfs, himage⟩ :=
    second_leaf_refused (a := front :: shelf.take 339) (b := shelf.drop 339) (by decide +kernel)
      (by decide +kernel)
  have habort : fs.aborted = false := by
    rw [hfs]
    decide +kernel
  refine ⟨err, fs, insert_refused (e := front) shelfCrowded_stands merge_front ?_, habort, himage⟩
  have hcount : ((front :: shelf).length + leafMax - 1) / leafMax = 2 := by decide +kernel
  unfold reserialize
  rw [if_neg (by decide +kernel)]
  dsimp only
  rw [hcount, if_pos (by decide), bind_ok (acquire_pool _ _)]
  refine bind_error ?_
  dsimp only
  rw [writeLeaves, hchunks, TreeFs.onFs, zoom, hwrite]

end Shelf

structure Intact (s : TreeFs) : Prop where
  mapped : ∀ iblock e, (s.tree.lookup iblock s.fs).1 = .ok (some e) →
    s.fs.blockUsed (e.start + (iblock - e.block)) = true
  nodes : ∀ extents external, (s.tree.flatten s.fs).1 = .ok (extents, external) →
    (∀ b ∈ external, s.fs.blockUsed b = true) ∧
      s.tree.sectorCount = sectorsPerBlock * ((dataBlocks extents).length + external.length)

theorem Stands.intact (h : Stands s extents external) : Intact s where
  mapped iblock e hlook := by
    rw [h.lookup] at hlook
    obtain ⟨he, hcov⟩ := h.sound.find?.mp (Except.ok.inj hlook)
    refine h.owns.used _ (mem_append_left _ (mem_map.mpr
      ⟨(iblock, e.start + (iblock - e.block), e.kind), mem_contents.mpr ⟨e, he, ?_⟩, rfl⟩))
    exact Extent.mem_cells.mpr ⟨hcov, rfl, rfl⟩
  nodes extents' external' hflat := by
    have hread : s.tree.flatten s.fs = (.ok (extents, external), s.fs) := flatten_eq h.shaped
    rw [hread] at hflat
    obtain ⟨rfl, rfl⟩ := Prod.mk.inj (Except.ok.inj hflat)
    exact ⟨fun b hb => h.owns.used b (mem_append_right _ hb), h.sectors⟩

theorem Halted.intact (hhalt : Halted s funded s') (h : Stands s extents external) (hf : funded)
    (habort : s'.fs.aborted = false) : Intact s' := by
  rcases hhalt.kept hf with hno | rfl
  · rw [habort] at hno
    cases hno
  · exact h.intact

def narrowTruncate : Except Fault TruncateChunk × TreeFs :=
  truncateChunk Specimen.wide none .plainData 0 (some 0) spreadFile

theorem truncate_too_wide {newSize limit : Nat} (h : Stands s extents external)
    (hlimit : limit < Fs.extentFreeCredits + s.fs.truncateChunkCredits (externalNodeCount extents.length))
    (hdoomed : doomedAbove (keepBlocks newSize) extents ≠ []) :
    truncateChunk g csumSeed policy newSize (some limit) s = (.error truncateTooWide, s) := by
  unfold truncateChunk
  rw [bind_ok h.flatten]
  dsimp only
  rw [get_bind, h.ordered.sortByBlock, if_pos ⟨by simpa using hlimit, .inl hdoomed⟩]
  rfl

theorem punch_refused {lo hi : Nat} (h : Stands s extents external) (hlt : lo < hi)
    (hone : extents.flatMap (Extent.punchDoomed lo hi) = [e]) (hkept : Ordered (punchedKept lo hi extents))
    (hfree : Fs.freeBlocks g (policy.authorize e.start e.len) s.fs = (.ok (), fs))
    (hrun : reserialize g csumSeed (punchedKept lo hi extents) external { s with fs := fs } =
      (.error err, s')) :
    punchChunk g csumSeed policy lo hi none s = (.error err, s') := by
  have hdoomed : ∀ need, TreeFs.onFs (freeDoomed g policy false need [e]) s = (.ok 1, { s with fs := fs }) :=
    fun need => by
      have hone : freeDoomed g policy false need [e] s.fs = (.ok 1, fs) := bind_ok hfree
      rw [TreeFs.onFs, zoom, hone]
  unfold punchChunk
  rw [if_neg (not_le.mpr hlt), bind_ok h.flatten]
  dsimp only
  rw [get_bind, h.ordered.sortByBlock, hone, sortDescending, mergeSort_singleton, if_neg (by simp)]
  refine (bind_ok (hdoomed _)).trans (bind_error (bind_error ?_))
  rw [drop_one, tail_cons, append_nil]
  change reserialize g csumSeed (sortByBlock (punchedKept lo hi extents)) external _ = _
  rw [hkept.sortByBlock]
  exact hrun

def wideHead : List Extent :=
  [⟨0, 3, 5, .written⟩, ⟨10, 1, 8, .written⟩, ⟨20, 1, 9, .written⟩, ⟨30, 1, 10, .written⟩]

def wideHeadFile : TreeFs := full.holder Specimen.wide (fun _ => none) (inlineLeafRoot wideHead) wideHead []

theorem wideHeadFile_stands : Stands wideHeadFile wideHead [] :=
  stands_inline (by decide) (by decide) (by decide) (by decide) (by decide)

def punchedVolume : TreeFs :=
  { wideHeadFile with
    fs := (Fs.freeBlocks Specimen.wide (DataForgetPolicy.plainData.authorize 6 1) wideHeadFile.fs).2 }

def punchedRebuild : Except Fault TreeDelta × TreeFs :=
  reserialize Specimen.wide none (punchedKept 1 2 wideHead) [] punchedVolume

theorem wideHeadFile_rebuild_refused :
    punchedRebuild.1.isOk = false ∧ punchedRebuild.2.fs.aborted = false ∧
      (punchedRebuild.2.tree.lookup 1 punchedRebuild.2.fs).1.toOption = some (some ⟨0, 3, 5, .written⟩) ∧
      punchedRebuild.2.fs.blockUsed 6 = false := by
  decide +kernel

def middlePunch : Except Fault PunchChunk × TreeFs :=
  punchChunk Specimen.wide none .plainData 1 2 none wideHeadFile

end Ext4
