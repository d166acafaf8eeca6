import Ext4.Alloc.Captures
import Ext4.Extent.Aside
import Ext4.Extent.Faults

namespace Ext4

open Op

theorem JournalState.tryReserveNext_uncheckpointed (g : JournalGeometry) (h : Handle) (st : JournalState) (need : Nat) :
    (st.tryReserveNext g h need).2.2.uncheckpointed = st.uncheckpointed := by
  unfold tryReserveNext
  split
  · rfl
  split
  · rfl
  split <;> rfl

namespace Fs

def retained (fs : Fs) (b : Nat) : Option Block :=
  fs.journal.bind fun j => (j.state.uncheckpointed b).map UncheckpointedImage.image

structure Still (fs fs' : Fs) : Prop where
  sb : fs'.sb = fs.sb
  groups : fs'.groups = fs.groups
  device : fs'.device = fs.device
  mode : fs'.handle.isSome = fs.handle.isSome
  retained : ∀ b v, fs'.retained b = some v → fs.retained b = some v

instance : IsPreorder Fs Still where
  refl _ := ⟨rfl, rfl, rfl, rfl, fun _ _ h => h⟩
  trans _ _ _ h₁ h₂ :=
    ⟨h₂.sb.trans h₁.sb, h₂.groups.trans h₁.groups, h₂.device.trans h₁.device, h₂.mode.trans h₁.mode,
      fun b v h => h₁.retained b v (h₂.retained b v h)⟩

section Funnel

variable {α : Type} (g : JournalGeometry)

theorem underHandle_still (inert : α) {f : Handle → JournalState → Except Fault α × Handle × JournalState}
    (hf : ∀ h st b v, (f h st).2.2.uncheckpointed b = some v → st.uncheckpointed b = some v) :
    Keeps Still (underHandle inert f) := by
  intro fs
  unfold underHandle
  cases hh : fs.handle with
  | none => exact refl_of Still fs
  | some h =>
    cases hj : fs.journal with
    | none => exact refl_of Still fs
    | some j =>
      refine ⟨rfl, rfl, rfl, by rw [hh]; rfl, fun b v hv => ?_⟩
      obtain ⟨image, himage, rfl⟩ := Option.map_eq_some_iff.mp hv
      rw [retained, hj, Option.bind_some, hf h j.state b image himage]
      rfl

theorem getWriteAccess_still (bid : Nat) : Keeps Still (getWriteAccess g bid) := fun fs =>
  underHandle_still _ (fun h st b v hv => by
    rw [← (JournalState.tints_getWriteAccess (Finset.mem_singleton_self bid) g h (fs.device bid) st).2.images]
    exact hv) fs

theorem getCreateAccess_still (bid : Nat) : Keeps Still (getCreateAccess g bid) :=
  underHandle_still _ fun h st b v hv => by
    rw [← (JournalState.tints_getCreateAccess (Finset.mem_singleton_self bid) g h st).2.images]
    exact hv

theorem keepOnError_still {f : Handle → JournalState → Except Fault JournalState}
    (hf : ∀ h st st', f h st = .ok st' → ∀ b v, st'.uncheckpointed b = some v → st.uncheckpointed b = some v) :
    Keeps Still (underHandle () fun h st => keepOnError h st (f h st)) :=
  underHandle_still _ fun h st b v hv => by
    cases hres : f h st with
    | error e =>
      rw [hres] at hv
      exact hv
    | ok st' =>
      rw [hres] at hv
      exact hf h st st' hres b v hv

theorem patch_still (access : WriteAccess) (f : Block → Block) : Keeps Still (patch access f) := by
  unfold patch
  cases access.live with
  | none => exact .ret ()
  | some p =>
    refine keepOnError_still fun h st st' hst b v hv => ?_
    rw [← (JournalState.tints_patch (S := ∅) hst).images]
    exact hv

theorem capturePatch_still (bid : Nat) (f : Block → Block) : Keeps Still (capturePatch g bid f) :=
  .bind (getWriteAccess_still g bid) fun access => patch_still access f

theorem discharge_still (start count : Nat) : Keeps Still (discharge start count) := by
  refine keepOnError_still fun h st st' hst b v hv => ?_
  unfold JournalState.discharge at hst
  split at hst
  · cases hst
  · cases hst
    dsimp only at hv
    split at hv
    · cases hv
    · simpa using hv

theorem pinFreedRun_still (start count : Nat) : Keeps Still (pinFreedRun start count) := by
  refine keepOnError_still fun h st st' hst b v hv => ?_
  unfold JournalState.pinFreedRun at hst
  split at hst
  · cases hst
    exact hv
  split at hst
  · cases hst
  · cases hst
    exact hv

theorem tryReserveNext_still (need : Nat) : Keeps Still (tryReserveNext g need) :=
  underHandle_still _ fun h st b v hv => by
    rw [← JournalState.tryReserveNext_uncheckpointed g h st need]
    exact hv

theorem registerOrderedData_still (ino len : Nat) :
    Keeps Still (underHandle () fun h st => keepOnError h st (st.registerOrderedData h.tid ino len)) := by
  refine keepOnError_still fun h st st' hst b v hv => ?_
  unfold JournalState.registerOrderedData at hst
  split at hst
  · cases hst
  · cases hst
    simpa using hv

theorem withJournal_still {f : Journal → Journal}
    (hf : ∀ j, (f j).state.uncheckpointed = j.state.uncheckpointed) (fs : Fs) :
    fs.Still { fs with journal := fs.journal.map f } where
  sb := rfl
  groups := rfl
  device := rfl
  mode := rfl
  retained b v hv := by
    unfold retained at hv ⊢
    cases hj : fs.journal with
    | none => simp [hj] at hv
    | some j =>
      simp only [hj, Option.map_some, Option.bind_some, hf j] at hv ⊢
      exact hv

theorem abortJournalOnFsError_still : Keeps Still abortJournalOnFsError := by
  refine .modify fun fs => ?_
  split
  · exact refl_of Still fs
  · apply withJournal_still
    intro j
    rfl

theorem requestCommitOfRunning_still : Keeps Still requestCommitOfRunning := by
  refine .modify fun fs => withJournal_still (fun j => ?_) fs
  change j.state.requestCommitOfRunning.uncheckpointed = _
  unfold JournalState.requestCommitOfRunning JournalState.requestCommitFor
  split
  · split <;> rfl
  · rfl

end Funnel

structure Ebbs (fs fs' : Fs) : Prop where
  frame : fs'.sb.frame = fs.sb.frame
  firstBlock : ∀ idx, (fs'.groups idx).firstBlock = (fs.groups idx).firstBlock
  inodeBitmap : ∀ idx, (fs'.groups idx).metadata.inodeBitmap = (fs.groups idx).metadata.inodeBitmap
  blocks : ∀ idx i, (fs'.groups idx).metadata.blockBitmap.isAllocated i = true →
    (fs.groups idx).metadata.blockBitmap.isAllocated i = true
  device : fs.handle.isSome = true → fs'.device = fs.device
  mode : fs'.handle.isSome = fs.handle.isSome
  retained : ∀ b v, fs'.retained b = some v → fs.retained b = some v

structure Tends (S : Nat → Prop) (fs fs' : Fs) : Prop where
  inodesCount : fs'.sb.inodesCount = fs.sb.inodesCount
  inodesPerGroup : fs'.sb.inodesPerGroup = fs.sb.inodesPerGroup
  nrBlockGroups : fs'.sb.nrBlockGroups = fs.sb.nrBlockGroups
  inodes : ∀ x, ¬S x → fs'.isInodeAllocated x = fs.isInodeAllocated x
  device : fs.handle.isSome = true → fs'.device = fs.device
  mode : fs'.handle.isSome = fs.handle.isSome
  retained : ∀ b v, fs'.retained b = some v → fs.retained b = some v

section Orders

variable {S S' : Nat → Prop} {fs fs' : Fs}

instance : IsPreorder Fs Ebbs where
  refl _ := ⟨rfl, fun _ => rfl, fun _ => rfl, fun _ _ h => h, fun _ => rfl, rfl, fun _ _ h => h⟩
  trans _ _ _ h₁ h₂ :=
    { frame := h₂.frame.trans h₁.frame
      firstBlock := fun idx => (h₂.firstBlock idx).trans (h₁.firstBlock idx)
      inodeBitmap := fun idx => (h₂.inodeBitmap idx).trans (h₁.inodeBitmap idx)
      blocks := fun idx i h => h₁.blocks idx i (h₂.blocks idx i h)
      device := fun h => (h₂.device (h₁.mode.trans h)).trans (h₁.device h)
      mode := h₂.mode.trans h₁.mode
      retained := fun b v h => h₁.retained b v (h₂.retained b v h) }

instance : IsPreorder Fs (Tends S) where
  refl _ := ⟨rfl, rfl, rfl, fun _ _ => rfl, fun _ => rfl, rfl, fun _ _ h => h⟩
  trans _ _ _ h₁ h₂ :=
    { inodesCount := h₂.inodesCount.trans h₁.inodesCount
      inodesPerGroup := h₂.inodesPerGroup.trans h₁.inodesPerGroup
      nrBlockGroups := h₂.nrBlockGroups.trans h₁.nrBlockGroups
      inodes := fun x hx => (h₂.inodes x hx).trans (h₁.inodes x hx)
      device := fun h => (h₂.device (h₁.mode.trans h)).trans (h₁.device h)
      mode := h₂.mode.trans h₁.mode
      retained := fun b v h => h₁.retained b v (h₂.retained b v h) }

theorem Tends.mono (h : fs.Tends S fs') (hS : ∀ x, S x → S' x) : fs.Tends S' fs' :=
  { h with inodes := fun x hx => h.inodes x (mt (hS x) hx) }

theorem isInodeAllocated_congr (hcount : fs'.sb.inodesCount = fs.sb.inodesCount)
    (hper : fs'.sb.inodesPerGroup = fs.sb.inodesPerGroup) (hnr : fs'.sb.nrBlockGroups = fs.sb.nrBlockGroups)
    (hbits : ∀ idx, (fs'.groups idx).metadata.inodeBitmap = (fs.groups idx).metadata.inodeBitmap) (x : Nat) :
    fs'.isInodeAllocated x = fs.isInodeAllocated x := by
  have hfind : findGroup fs'.sb x = findGroup fs.sb x := by
    simp only [findGroup, hcount, hper, hnr]
  unfold isInodeAllocated
  rw [hfind, hper]
  split
  · rfl
  · rw [hbits]

theorem Still.ebbs (h : fs.Still fs') : fs.Ebbs fs' where
  frame := by rw [h.sb]
  firstBlock idx := by rw [h.groups]
  inodeBitmap idx := by rw [h.groups]
  blocks idx i hi := by rwa [h.groups] at hi
  device _ := h.device
  mode := h.mode
  retained := h.retained

theorem Ebbs.tends (h : fs.Ebbs fs') : fs.Tends S fs' := by
  have hsb : ∀ f : SuperBlock → Nat, f fs'.sb.frame = f fs.sb.frame := fun f => congrArg f h.frame
  have hcount : fs'.sb.inodesCount = fs.sb.inodesCount := hsb SuperBlock.inodesCount
  have hper : fs'.sb.inodesPerGroup = fs.sb.inodesPerGroup := hsb SuperBlock.inodesPerGroup
  have hnr : fs'.sb.nrBlockGroups = fs.sb.nrBlockGroups := hsb SuperBlock.nrBlockGroups
  exact ⟨hcount, hper, hnr, fun x _ => isInodeAllocated_congr hcount hper hnr h.inodeBitmap x, h.device,
    h.mode, h.retained⟩

theorem Ebbs.blockUsed (h : fs.Ebbs fs') {b : Nat} (hb : fs'.blockUsed b = true) : fs.blockUsed b = true := by
  have hsb : ∀ f : SuperBlock → Nat, f fs'.sb.frame = f fs.sb.frame := fun f => congrArg f h.frame
  have hfirst : fs'.sb.firstDataBlock = fs.sb.firstDataBlock := hsb SuperBlock.firstDataBlock
  have hper : fs'.sb.blocksPerGroup = fs.sb.blocksPerGroup := hsb SuperBlock.blocksPerGroup
  have hgroup : fs'.groupOf b = fs.groupOf b := by simp only [Fs.groupOf, hfirst, hper]
  unfold Fs.blockUsed at hb ⊢
  rw [hgroup, h.firstBlock] at hb
  exact h.blocks _ _ hb

end Orders

section Blocks

variable {fs fs1 : Fs} {idx : Nat} {m : BlockGroupMetadata} (g : JournalGeometry) {R : Fs → Fs → Prop}
  {sb : SuperBlock} {S : Nat → Prop} {ino : Nat}

theorem Ebbs.setMetadata (h : fs.Still fs1) (hinode : m.inodeBitmap = (fs.groups idx).metadata.inodeBitmap)
    (hblock : ∀ i, m.blockBitmap.isAllocated i = true →
      (fs.groups idx).metadata.blockBitmap.isAllocated i = true) : fs.Ebbs (fs1.setMetadata idx m) where
  frame := by
    change fs1.sb.frame = _
    rw [h.sb]
  firstBlock i := by
    rcases Decidable.eq_or_ne i idx with rfl | hne
    · simp [Fs.setMetadata, h.groups]
    · simp [Fs.setMetadata, h.groups, hne]
  inodeBitmap i := by
    rcases Decidable.eq_or_ne i idx with rfl | hne
    · simpa [Fs.setMetadata] using hinode
    · simp [Fs.setMetadata, h.groups, hne]
  blocks i bit hbit := by
    rcases Decidable.eq_or_ne i idx with rfl | hne
    · exact hblock bit (by simpa [Fs.setMetadata] using hbit)
    · simpa [Fs.setMetadata, h.groups, hne] using hbit
  device _ := h.device
  mode := h.mode
  retained := h.retained

theorem publish_still (group : BlockGroup) (access : WriteAccess) (bitmap : IdBitmap) :
    Keeps Still (BlockGroup.publish g group access bitmap m) :=
  .bind (patch_still access _) fun _ => capturePatch_still g _ _

theorem published [IsPreorder Fs R] (hstill : ∀ a b, a.Still b → R a b) (hset : R fs fs1) (group : BlockGroup)
    (access : WriteAccess) (bitmap : IdBitmap) :
    (BlockGroup.publish g group access bitmap m).Leaves fs1 (R fs) :=
  ((publish_still g group access bitmap).ends fs1).both fun _ h => trans_of R hset (hstill _ _ h)

theorem isAllocated_clearBits {bits : List Nat} {bm : IdBitmap} {i : Nat}
    (h : (IdBitmap.clearBits bits bm).1.isAllocated i = true) : bm.isAllocated i = true := by
  induction bits generalizing bm with
  | nil => exact h
  | cons bit bits ih =>
    unfold IdBitmap.clearBits at h
    split at h
    next hset =>
      rcases Decidable.eq_or_ne i bit with rfl | hne
      · exact hset
      · have hfree : (bm.free bit).isAllocated i = true := ih h
        rw [IdBitmap.isAllocated, IdBitmap.free, Bytes.bitAt_setBit_ne _ _ hne] at hfree
        exact hfree
    · exact ih h

theorem groupFreeBlocks_ebbs (idx startBit count : Nat) :
    Keeps Ebbs (BlockGroup.freeBlocks g idx startBit count) := by
  refine .of_ends fun fs => .bind_get ?_
  dsimp only
  split
  · exact Keeps.ends (.mono (.bind abortJournalOnFsError_still fun _ => .fail _) fun _ _ h => h.ebbs) fs
  · refine ((getWriteAccess_still g _).ends fs).bindOr (fun _ _ h => h.ebbs)
      fun access fs1 h1 => ?_
    have hset : ∀ m : BlockGroupMetadata, m.inodeBitmap = (fs.groups idx).metadata.inodeBitmap →
        m.blockBitmap = (IdBitmap.clearBits (List.range' startBit count)
          (fs.groups idx).metadata.blockBitmap).1 → fs.Ebbs (fs1.setMetadata idx m) := fun m hinode hblock =>
      .setMetadata h1 hinode fun i hi => isAllocated_clearBits (hblock ▸ hi)
    refine .bind_modify ?_
    split
    · exact .fail (hset _ rfl rfl)
    · refine .bind_modify ?_
      rw [Fs.setMetadata_setMetadata]
      refine (published g (fun _ _ h => h.ebbs) ?_ _ _ _).bind fun _ fs2 h2 => .ret h2
      exact hset _ rfl rfl

theorem updateSb_keeps [IsPreorder Fs R] (hstill : ∀ a b, a.Still b → R a b)
    {update : SuperBlock → Except Fault SuperBlock}
    (hsb : ∀ fs sb, update fs.sb = .ok sb → R fs (fs.setSb sb)) : Keeps R (updateSb g update) := by
  refine .of_ends fun fs => .bind_get ?_
  refine Op.Ends.bind (Q := fun sb fs1 => fs1 = fs ∧ update fs.sb = .ok sb) ?_ fun sb fs1 h1 => ?_
  · exact .ofExcept (fun _ h => ⟨rfl, h⟩) fun _ _ => refl_of R fs
  · obtain ⟨rfl, hok⟩ := h1
    refine .bind_modify (.bind_get ?_)
    exact ((capturePatch_still g _ _).ends _).both fun _ h => trans_of R (hsb _ sb hok) (hstill _ _ h)

theorem Ebbs.setSb (h : sb.frame = fs.sb.frame) : fs.Ebbs (fs.setSb sb) :=
  ⟨h, fun _ => rfl, fun _ => rfl, fun _ _ h => h, fun _ => rfl, rfl, fun _ _ h => h⟩

theorem freeRun_ebbs (idx startBit current count : Nat) :
    Tame Ebbs (freeRun g idx startBit current count) := by
  refine .bind ⟨groupFreeBlocks_ebbs g idx startBit count, groupFreeBlocks_modest g _ _ _⟩ fun freed => ?_
  refine .bind (.mono ⟨pinFreedRun_still _ _, pinFreedRun_modest _ _⟩ fun _ _ h => h.ebbs) fun _ => ?_
  split
  · refine ⟨updateSb_keeps g (fun _ _ h => h.ebbs) fun fs sb h => .setSb ?_,
      updateSb_modest g fun _ _ he => incFreeBlocks_modest he⟩
    rw [incFreeBlocks_ok h]
    rfl
  · exact .ret ()

theorem freeRuns_ebbs (duty : Bool) (fuel current remaining : Nat) :
    Tame Ebbs (freeRuns g duty fuel current remaining) := by
  induction fuel generalizing current remaining with
  | zero => exact .ret ()
  | succ fuel ih =>
    unfold freeRuns
    split
    · exact .ret ()
    · refine .bind .get fun fs => .bind ?_ fun _ => .bind_attempt (freeRun_ebbs g _ _ _ _) (fun _ => ih _ _) ?_ fun _ => rfl
      · unfold dischargeDuty
        split
        · exact .mono ⟨discharge_still _ _, discharge_modest _ _⟩ fun _ _ h => h.ebbs
        · exact .ret ()
      · exact .mono ⟨abortJournalOnFsError_still, .modify _⟩ fun _ _ h => h.ebbs

theorem freeBlocks_ebbs (auth : BlockFreeAuth) : Tame Ebbs (freeBlocks g auth) := freeRuns_ebbs g _ _ _ _

theorem Tends.setMetadata (h : fs.Still fs1) (hinode : m.inodeBitmap = (fs.groups idx).metadata.inodeBitmap) :
    fs.Tends S (fs1.setMetadata idx m) := by
  have hsb : (fs1.setMetadata idx m).sb = fs.sb := h.sb
  refine ⟨by rw [hsb], by rw [hsb], by rw [hsb], fun x _ => ?_, fun _ => h.device, h.mode, h.retained⟩
  refine isInodeAllocated_congr (by rw [hsb]) (by rw [hsb]) (by rw [hsb]) (fun i => ?_) x
  rcases Decidable.eq_or_ne i idx with rfl | hne
  · simpa [Fs.setMetadata] using hinode
  · simp [Fs.setMetadata, h.groups, hne]

theorem groupAllocBlocks_tends (idx count sbFreeBlocks : Nat) (pinnedFrees : List (Nat × Nat)) :
    Keeps (Tends S) (BlockGroup.allocBlocks g idx count sbFreeBlocks pinnedFrees) := by
  refine .of_ends fun fs => .bind_get ?_
  dsimp only
  refine ((getWriteAccess_still g _).ends fs).bindOr (fun _ _ h => h.ebbs.tends)
    fun access fs1 h1 => ?_
  split
  · refine .bind_modify ?_
    split
    · exact .fail (.setMetadata h1 rfl)
    · exact .ret (.setMetadata h1 rfl)
  · split
    · exact .bind_modify (.fail (.setMetadata h1 rfl))
    · refine .bind_modify ?_
      refine (published (R := Tends S) g (fun _ _ h => h.ebbs.tends) ?_ _ _ _).bind fun _ fs2 h2 => .ret h2
      exact .setMetadata h1 rfl

theorem searchGroups_tends (count sbFreeBlocks : Nat) (pinnedFrees : List (Nat × Nat)) (ring : List Nat)
    (pinnedBlocked : Bool) :
    Tame (Tends S) (searchGroups g count sbFreeBlocks pinnedFrees ring pinnedBlocked) := by
  induction ring generalizing pinnedBlocked with
  | nil =>
    unfold searchGroups
    split
    · exact .bind (.mono ⟨requestCommitOfRunning_still, .modify _⟩ fun _ _ h => h.ebbs.tends) fun _ => .fail rfl
    · exact .fail rfl
  | cons idx rest ih =>
    refine .bind ⟨groupAllocBlocks_tends g idx _ _ _, groupAllocBlocks_modest g idx _ _ _⟩ fun res => ?_
    cases res with
    | allocated range =>
      refine .bind ⟨updateSb_keeps g (fun _ _ h => h.ebbs.tends) fun fs sb h => ?_,
        updateSb_modest g fun _ _ he => decFreeBlocks_modest he⟩ fun _ => .ret _
      exact (Ebbs.setSb (decFreeBlocks_ok h)).tends
    | noFit pinned => exact ih _

theorem allocBlocks_tends (count goal : Nat) : Tame (Tends S) (allocBlocks g count goal) := by
  unfold allocBlocks
  split
  · exact .fail rfl
  · refine .bind .get fun fs => ?_
    split
    · exact .fail rfl
    · exact searchGroups_tends g _ _ _ _ _

theorem findGroup_ok (h : findGroup sb ino = .ok idx) :
    ino ≠ 0 ∧ idx = (ino - 1) / sb.inodesPerGroup := by
  unfold findGroup at h
  split at h
  · cases h
  next hzero =>
  split at h
  · cases h
  split at h
  · cases h
  · cases h
    exact ⟨hzero, rfl⟩

theorem Tends.setInodeBit (h : fs.Still fs1) (hidx : findGroup fs.sb ino = .ok idx)
    (hbits : ∀ i, i ≠ (ino - 1) % fs.sb.inodesPerGroup →
      m.inodeBitmap.isAllocated i = (fs.groups idx).metadata.inodeBitmap.isAllocated i) :
    fs.Tends (fun x => x = ino) (fs1.setMetadata idx m) := by
  have hsb : (fs1.setMetadata idx m).sb = fs.sb := h.sb
  refine ⟨by rw [hsb], by rw [hsb], by rw [hsb], fun x hx => ?_, fun _ => h.device, h.mode, h.retained⟩
  unfold isInodeAllocated
  rw [hsb]
  cases hfind : findGroup fs.sb x with
  | error e => rfl
  | ok i =>
    dsimp only
    rcases Decidable.eq_or_ne i idx with rfl | hne
    · have hbit : (x - 1) % fs.sb.inodesPerGroup ≠ (ino - 1) % fs.sb.inodesPerGroup := by
        intro heq
        obtain ⟨hx0, hxi⟩ := findGroup_ok hfind
        obtain ⟨hino0, hinoi⟩ := findGroup_ok hidx
        have hsame : x - 1 = ino - 1 := by
          rw [← Nat.div_add_mod (x - 1) fs.sb.inodesPerGroup,
            ← Nat.div_add_mod (ino - 1) fs.sb.inodesPerGroup, heq, ← hxi, ← hinoi]
        exact hx (by omega)
      simpa [Fs.setMetadata] using hbits _ hbit
    · simp [Fs.setMetadata, h.groups, hne]

theorem freeInode_tends (ino : Nat) (type : InodeType) :
    Keeps (Tends fun x => x = ino) (freeInode g ino type) := by
  refine .of_ends fun fs => .bind_get ?_
  cases hfind : findGroup fs.sb ino with
  | error e => exact .fail (refl_of _ fs)
  | ok idx =>
    refine .bind_of_eq rfl (Op.Ends.bind (Q := fun _ fs1 => fs.Tends (fun x => x = ino) fs1) ?_
      fun freed fs1 h1 => ?_)
    · refine .bind_get ?_
      dsimp only
      split
      · exact .ret (refl_of _ fs)
      · refine ((getWriteAccess_still g _).ends fs).bindOr (fun _ _ h => h.ebbs.tends)
          fun access fs1 h1 => ?_
        split
        · exact .fail h1.ebbs.tends
        split
        · exact .fail h1.ebbs.tends
        · refine .bind_modify ((published (R := Tends fun x => x = ino) g (fun _ _ h => h.ebbs.tends) ?_
            _ _ _).bind fun _ fs2 h2 => .ret h2)
          exact .setInodeBit h1 hfind fun i hi => Bytes.bitAt_setBit_ne _ _ hi
    · split
      · have hsb := updateSb_keeps (R := Tends fun x => x = ino) g (fun _ _ h => h.ebbs.tends)
          (fun fs sb h => (Ebbs.setSb (incFreeInodes_ok h)).tends)
        exact (hsb.ends fs1).both fun _ h => trans_of _ h1 h
      · exact .ret h1

end Blocks

section Nodes

variable (g : JournalGeometry) {R : Fs → Fs → Prop} [IsPreorder Fs R] {S : Nat → Prop}

theorem getWriteAccess_live (fs : Fs) (bid : Nat) :
    (getWriteAccess g bid).Ends fs (fun access _ => fs.handle.isSome = true → access.isLive = true)
      fun _ _ => True := by
  refine .intro (fun access fs' hrun hlive => ?_) fun _ _ _ => trivial
  unfold getWriteAccess underHandle at hrun
  cases hh : fs.handle with
  | none =>
    rw [hh] at hlive
    cases hlive
  | some h =>
    cases hj : fs.journal with
    | none =>
      rw [hh, hj] at hrun
      cases hrun
    | some j =>
      rw [hh, hj] at hrun
      cases hres : (j.state.getWriteAccess g h bid (fs.device bid)).1 with
      | error e =>
        simp only [hres, Except.map] at hrun
        cases hrun
      | ok generation =>
        simp only [hres, Except.map, Prod.mk.injEq, Except.ok.injEq] at hrun
        rw [← hrun.1]
        rfl

theorem writeNode_ebbs (bid : Nat) (block : Block) : Keeps Ebbs (writeNode g bid block) := by
  refine .of_ends fun fs => ?_
  refine (((getWriteAccess_still g bid).ends fs).and (getWriteAccess_live g fs bid)).bindOr (fun _ _ h => h.1.ebbs) fun access fs1 h1 => ?_
  obtain ⟨h1, hlive⟩ := h1
  refine (((patch_still access _).ends fs1).mono (fun _ _ h => trans_of Still h1 h)
    fun _ _ h => (trans_of Still h1 h).ebbs).bind fun _ fs2 h2 => ?_
  split
  · exact .ret h2.ebbs
  next hinert =>
    -- an inert access means that no handle is open
    have hnone : ¬fs.handle.isSome = true := fun hsome => hinert (hlive hsome)
    refine .intro (fun _ fs3 hrun => ?_) fun _ fs3 hrun => ?_
    · unfold writeDevice at hrun
      split at hrun
      · cases hrun
        exact { h2.ebbs with device := fun hsome => absurd hsome hnone }
      · cases hrun
    · unfold writeDevice at hrun
      split at hrun
      · cases hrun
      · cases hrun
        exact h2.ebbs

theorem freeMetaBlocks_ebbs (bids : List Nat) : Tame Ebbs (freeMetaBlocks g bids) :=
  .bind (.each (fun _ => freeBlocks_ebbs g _) bids) fun _ => .ret _

theorem rollbackMetaBlocks_ebbs (bids : List Nat) : Tame Ebbs (rollbackMetaBlocks g bids) := by
  induction bids with
  | nil => exact .ret ()
  | cons bid rest ih => exact .bind ⟨.attempt (freeBlocks_ebbs g _).1, .attempt _⟩ fun _ => ih

theorem orRollback_keeps {α : Type} {m : FsOp α} (hR : ∀ a b, a.Ebbs b → R a b) (hm : Tame R m)
    (bids : List Nat) : Tame R (orRollback g bids m) :=
  .bind_attempt hm .ret (.mono (rollbackMetaBlocks_ebbs g bids) hR) fun _ => rfl

theorem allocateNew_tends (goal count : Nat) (fresh : List Nat) :
    Tame (Tends S) (allocateNew g goal count fresh) := by
  induction count generalizing fresh with
  | zero => exact .ret _
  | succ count ih =>
    refine .bind (orRollback_keeps g (fun _ _ h => h.tends) ?_ _) fun bid => ih _
    refine .bind (allocBlocks_tends g 1 goal) fun range => .bind ?_ fun _ => .ret _
    exact .mono ⟨getCreateAccess_still g _, getCreateAccess_modest g _⟩ fun _ _ h => h.ebbs.tends

theorem acquireMetaBlocks_tends (pool : List Nat) (count goal : Nat) :
    Tame (Tends S) (acquireMetaBlocks g pool count goal) :=
  .bind (allocateNew_tends g goal _ _) fun _ => .ret _

theorem acquireMetaBlocks_ebbs {pool : List Nat} {count : Nat} (h : count ≤ pool.length) (goal : Nat) :
    Tame Ebbs (acquireMetaBlocks g pool count goal) := by
  have hnone : count - min count pool.length = 0 := by omega
  unfold acquireMetaBlocks
  dsimp only
  rw [hnone]
  exact .bind (.ret _) fun _ => .ret _

end Nodes

end Fs

def TreeFs.Along (R : Fs → Fs → Prop) (s s' : TreeFs) : Prop := R s.fs s'.fs

instance {R : Fs → Fs → Prop} [IsPreorder Fs R] : IsPreorder TreeFs (TreeFs.Along R) where
  refl s := refl_of R s.fs
  trans _ _ _ h₁ h₂ := trans_of R h₁ h₂

section Trees

open Fs TreeFs

variable {R : Fs → Fs → Prop} [IsPreorder Fs R] {α : Type} (g : JournalGeometry) (csumSeed : Option UInt32)
  (policy : DataForgetPolicy) {extents : List Extent} {old : List Nat}

section Reads

theorem readNode_keeps (bid : Nat) : Tame R (Fs.readMetadataBlock bid) := by
  refine ⟨fun fs => ?_, Fs.readMetadataBlock_modest bid⟩
  unfold Fs.readMetadataBlock
  split <;> exact refl_of R fs

theorem descend_keeps (iblock fuel : Nat) (step : Step) : Tame R (ExtentTree.descend iblock fuel step) := by
  induction fuel generalizing step with
  | zero =>
    cases step with
    | found e => exact .ret _
    | hole => exact .ret _
    | descend bid => exact .fail rfl
  | succ fuel ih =>
    cases step with
    | found e => exact .ret _
    | hole => exact .ret _
    | descend bid => exact .bind (readNode_keeps bid) fun _ => .bind (.ofExcept fun _ => searchNode_modest) fun step => ih step

theorem lookup_keeps (tree : ExtentTree) (iblock : Nat) : Tame R (tree.lookup iblock) :=
  .bind (.ofExcept fun _ => searchEntries_modest) fun step => descend_keeps iblock _ step

theorem readLeaves_keeps (bids : List Nat) : Tame R (ExtentTree.readLeaves bids) := by
  induction bids with
  | nil => exact .ret []
  | cons bid rest ih =>
    exact .bind (readNode_keeps bid) fun _ => .bind (.ofExcept fun _ => parseLeafNode_modest) fun _ =>
      .bind ih fun _ => .ret _

theorem readInteriors_keeps (bids : List Nat) : Tame R (ExtentTree.readInteriors bids) := by
  induction bids with
  | nil => exact .ret _
  | cons bid rest ih =>
    exact .bind (readNode_keeps bid) fun _ => .bind (.ofExcept fun _ => parseInteriorNode_modest) fun leafBids =>
      .bind (readLeaves_keeps leafBids) fun _ => .bind ih fun _ => .ret _

theorem flatten_keeps (tree : ExtentTree) : Tame R tree.flatten := by
  unfold ExtentTree.flatten
  dsimp only
  split
  · exact .ret _
  split
  · exact .fail rfl
  split
  · exact .bind (readLeaves_keeps _) fun _ => .ret _
  · exact readInteriors_keeps _

end Reads

omit [IsPreorder Fs R] in
theorem treeFs_keeps {m : FsOp α} (hm : Tame R m) : Tame (Along R) (TreeFs.onFs m) :=
  .lift hm fun _ _ h => h

theorem setRoot_keeps (root : Bytes.Buffer 60) : Tame (Along R) (TreeFs.setRoot root) :=
  ⟨.modify fun s => refl_of R s.fs, .modify _⟩

theorem account_keeps (blocks : Int) : Tame (Along R) (TreeFs.account blocks) :=
  ⟨.modify fun s => refl_of R s.fs, .modify _⟩

theorem writeLeaves_ebbs (extents : List Extent) (leafBids : List Nat) :
    Tame Ebbs (writeLeaves g csumSeed extents leafBids) :=
  .each (fun _ => ⟨writeNode_ebbs g _ _, writeNode_modest g _ _⟩) _

theorem writeInteriors_ebbs (index : List ExtentIdx) (interiorBids : List Nat) :
    Tame Ebbs (writeInteriors g csumSeed index interiorBids) :=
  .each (fun _ => ⟨writeNode_ebbs g _ _, writeNode_modest g _ _⟩) _

section

variable (hR : ∀ a b, a.Ebbs b → R a b) (hacq : ∀ goal, Tame R (acquireMetaBlocks g old (externalNodeCount extents.length) goal))

include hR hacq

theorem reserialize_keeps :
    Tame (Along R) (reserialize g csumSeed extents old) := by
  have hfree (bids : List Nat) : Tame (Along R) (TreeFs.onFs (freeMetaBlocks g bids)) :=
    treeFs_keeps (.mono (freeMetaBlocks_ebbs g bids) hR)
  unfold reserialize
  unfold externalNodeCount at hacq
  split
  · exact .bind (setRoot_keeps _) fun _ => .bind (hfree _) fun _ => .ret _
  next hlong =>
  simp only [if_neg hlong] at hacq
  dsimp only
  split
  next hfew =>
    simp only [if_pos hfew, add_zero] at hacq
    refine .bind (treeFs_keeps (hacq _)) fun r => ?_
    refine .bind (treeFs_keeps (orRollback_keeps g hR (.mono (writeLeaves_ebbs g csumSeed _ _) hR) _))
      fun _ => ?_
    exact .bind (setRoot_keeps _) fun _ => .bind (hfree _) fun _ => .ret _
  next hmany =>
    simp only [if_neg hmany] at hacq
    split
    · exact .fail rfl
    · refine .bind (treeFs_keeps (hacq _)) fun r => ?_
      refine .bind (treeFs_keeps (orRollback_keeps g hR (.mono (writeLeaves_ebbs g csumSeed _ _) hR) _))
        fun _ => ?_
      refine .bind (treeFs_keeps (orRollback_keeps g hR (.mono (writeInteriors_ebbs g csumSeed _ _) hR) _))
        fun _ => ?_
      exact .bind (setRoot_keeps _) fun _ => .bind (hfree _) fun _ => .ret _

theorem shrinkTree_keeps (freed : Nat) :
    Tame (Along R) (shrinkTree g csumSeed extents old freed) := by
  refine .bind (reserialize_keeps g csumSeed hR fun goal => ?_) fun delta => account_keeps _
  rw [show (sortByBlock extents).length = extents.length from List.length_mergeSort _]
  exact hacq goal

end

theorem shrinkTree_modest (extents : List Extent) (old : List Nat) (freed : Nat) :
    Modest (shrinkTree g csumSeed extents old freed) :=
  (shrinkTree_keeps (R := Tends fun _ => True) g csumSeed (fun _ _ h => h.tends) (acquireMetaBlocks_tends g _ _) freed).2

theorem probe_ebbs (chunked : Bool) (need : Nat) : Tame Ebbs (probe g chunked need) := by
  refine .bind .get fun fs => ?_
  split
  · exact .bind (.mono ⟨tryReserveNext_still g need, Fs.tryReserveNext_modest g need⟩ fun _ _ h => h.ebbs) fun _ => .ret _
  · exact .ret _

theorem freeDoomed_ebbs (chunked : Bool) (need : Nat) (doomed : List Extent) :
    Tame Ebbs (freeDoomed g policy chunked need doomed) := by
  induction doomed with
  | nil => exact .ret 0
  | cons e rest ih =>
    refine .bind (probe_ebbs g chunked need) fun stop => ?_
    split
    · exact .ret 0
    · exact .bind (freeBlocks_ebbs g _) fun _ => .bind ih fun _ => .ret _

theorem freeTail_ebbs (chunked : Bool) (need keep : Nat) (stopped : Bool) (straddler : Option Extent) :
    Tame Ebbs (freeTail g policy chunked need keep stopped straddler) := by
  cases straddler with
  | none => exact .ret _
  | some e =>
    refine .bind ?_ fun stop => ?_
    · unfold probeTail
      split
      · exact .ret true
      · exact probe_ebbs g chunked need
    · split
      · exact .ret _
      · exact .bind (freeBlocks_ebbs g _) fun _ => .ret _

theorem freeTail_length (fs : Fs) (chunked : Bool) (need keep : Nat) (stopped : Bool) (straddler : Option Extent) :
    (freeTail g policy chunked need keep stopped straddler).Ends fs
      (fun r _ => r.1.length = straddler.toList.length) fun _ _ => True := by
  cases straddler with
  | none => exact .ret rfl
  | some e =>
    refine (Op.Ends.any _ fs).bind fun stop fs1 _ => ?_
    split
    · exact .ret rfl
    · exact (Op.Ends.any _ fs1).bind fun _ fs2 _ => .ret rfl

theorem truncateChunk_keeps (hR : ∀ a b, a.Ebbs b → R a b) (s : TreeFs) (newSize : Nat) (maxCredits : Option Nat)
    (hacq : ∀ flat old n, TreeFs.flatten s = (.ok (flat, old), s) → n ≤ (keptBelow (keepBlocks newSize)
      (sortByBlock flat)).length + (doomedAbove (keepBlocks newSize) (sortByBlock flat)).length +
      ((sortByBlock flat).find? (Extent.straddles (keepBlocks newSize))).toList.length → ∀ goal, Tame R
      (acquireMetaBlocks g old (externalNodeCount n) goal)) :
    (truncateChunk g csumSeed policy newSize maxCredits).Leaves s fun s' => R s.fs s'.fs := by
  have hebbs {β : Type} {m : FsOp β} (hm : Tame Ebbs m) : Keeps (Along R) (TreeFs.onFs m) :=
    (treeFs_keeps (.mono hm hR)).1
  have hread : Op.Ends TreeFs.flatten s (fun r s1 => s1 = s ∧ TreeFs.flatten s = (.ok r, s))
      fun _ s1 => R s.fs s1.fs := by
    have hsame : Keeps (· = ·) TreeFs.flatten :=
      .bind .get fun s => .lift (R := (· = ·)) (flatten_keeps s.tree).1 fun s fs h => by rw [← h]
    refine .intro (fun r s1 h => ?_) fun e s1 h => ?_
    · have heq : s = s1 := by simpa only [h] using hsame s
      rw [← heq] at h
      exact ⟨heq.symm, h⟩
    · have heq : s = s1 := by simpa only [h] using hsame s
      rw [heq]
      exact refl_of R s1.fs
  refine hread.bind fun r s1 h1 => ?_
  obtain ⟨flat, old⟩ := r
  obtain ⟨rfl, hflat⟩ := h1
  refine .bind_get ?_
  dsimp only
  split
  · exact .fail (refl_of R s1.fs)
  refine ((hebbs (freeDoomed_ebbs g policy _ _ _)).ends s1).bind fun k s2 h2 => ?_
  have htail (chunked : Bool) (need keep : Nat) (stopped : Bool) (straddler : Option Extent) :=
    ((hebbs (freeTail_ebbs g policy chunked need keep stopped straddler)).ends s2).and
      (.zoom (Q := fun r _ => r.1.length = straddler.toList.length) (E := fun _ _ => True)
        (freeTail_length g policy s2.fs chunked need keep stopped straddler))
  refine (htail _ _ _ _ _).bindOr (fun _ s3 h3 => trans_of R h2 h3.1) fun r s3 h3 => ?_
  obtain ⟨rest, tail⟩ := r
  obtain ⟨h3, hlen⟩ := h3
  have hmid : R s1.fs s3.fs := trans_of R h2 h3
  dsimp only at hlen ⊢
  refine (((shrinkTree_keeps g csumSeed hR (hacq flat old _ hflat ?_) _).1.ends s3).both fun _ h => trans_of R hmid h).bind fun _ s4 h4 => .bind_get (.ret h4)
  rw [List.length_append, List.length_append, hlen, List.length_drop]
  exact Nat.add_le_add_right (Nat.add_le_add_left (Nat.sub_le _ _) _) _

theorem truncateChunk_tends {S : Nat → Prop} (s : TreeFs) (newSize : Nat) (maxCredits : Option Nat) :
    (truncateChunk g csumSeed policy newSize maxCredits).Leaves s fun s' => s.fs.Tends S s'.fs :=
  truncateChunk_keeps g csumSeed policy (fun _ _ h => h.tends) s newSize maxCredits
    fun _ _ _ _ _ _ => acquireMetaBlocks_tends g _ _ _

theorem truncateChunk_ebbs {s : TreeFs} {external : List Nat} (h : Stands s extents external) (newSize : Nat)
    (maxCredits : Option Nat) :
    (truncateChunk g csumSeed policy newSize maxCredits).Leaves s fun s' => s.fs.Ebbs s'.fs := by
  refine truncateChunk_keeps g csumSeed policy (fun _ _ h => h) s newSize maxCredits
    fun flat old n hflat hn goal => acquireMetaBlocks_ebbs g ?_ goal
  rw [h.flatten] at hflat
  cases hflat
  rw [h.ordered.sortByBlock] at hn
  have hsplit := congrArg List.length (h.ordered.split (fun e he => (h.sound.valid e he).pos) (keepBlocks newSize))
  have hdoomed := (sortDescending_perm (extents.filter fun e => keepBlocks newSize ≤ e.block)).length_eq
  rw [h.shaped.count]
  refine externalNodeCount_mono (le_trans hn ?_)
  simp only [List.length_append, doomedAbove, keptBelow] at hsplit hdoomed ⊢
  omega

theorem truncateToByteLen_modest (newSize : Nat) : Modest (truncateToByteLen g csumSeed policy newSize) := by
  have hflat : Modest TreeFs.flatten := .bind .get fun s => .zoom (flatten_keeps (R := Eq) s.tree).2
  refine .bind (.bind hflat fun flat => .bind .get fun s => ?_) fun _ => .ret ()
  dsimp only
  rw [if_neg (by rintro ⟨hany, -⟩; cases hany)]
  exact .bind (.zoom (freeDoomed_ebbs g policy _ _ _).2) fun freed =>
    .bind (.zoom (freeTail_ebbs g policy _ _ _ _ _).2) fun tail =>
      .bind (shrinkTree_modest g csumSeed _ _ _) fun _ => .bind .get fun _ => .ret _

end Trees

end Ext4
