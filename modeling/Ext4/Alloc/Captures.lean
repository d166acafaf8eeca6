import Ext4.Alloc.Search

namespace Ext4

open Op Finset Option JournalState SuperBlock

variable {generation : Nat} {f : Block → Block}

namespace JournalState

variable {st : JournalState} {tid : Tid} {txn txn' : Transaction}

theorem activeTxn_setActive (h : st.activeTxn tid = some txn) (htid : txn'.tid = tid) :
    (st.setActive txn').activeTxn tid = some txn' := by
  unfold setActive
  rw [htid]
  by_cases hrun : (st.running.filter fun t => t.tid = tid).isSome = true
  · rw [if_pos hrun]
    simp [activeTxn, htid]
  · rw [if_neg hrun]
    have hnone : (st.running.filter fun t => t.tid = tid) = none := not_isSome_iff_eq_none.mp hrun
    rw [activeTxn, hnone, none_or] at h
    rw [if_pos (by rw [h]; rfl), activeTxn]
    simp [hnone, htid]

theorem activeTxn_tid (h : st.activeTxn tid = some txn) : txn.tid = tid := by
  rcases or_eq_some_iff.mp h with hrun | ⟨-, hlock⟩
  · exact of_decide_eq_true (filter_eq_some_iff.mp hrun).2
  · exact of_decide_eq_true (filter_eq_some_iff.mp hlock).2

end JournalState

namespace JournalState

theorem activeTxn_requestCommitOfRunning (st : JournalState) (tid : Tid) :
    st.requestCommitOfRunning.activeTxn tid = st.activeTxn tid := by
  unfold requestCommitOfRunning requestCommitFor
  split
  · split_ifs <;> rfl
  · rfl

end JournalState

namespace Transaction

variable {bid : Nat} {S : Finset Nat} {txn txn' txn'' : Transaction}

-- captured, revoked, or neither
def mark (txn : Transaction) (b : Nat) : Option Bool := (txn.record.event b).map Option.isSome

theorem isCaptured_iff_mark {b : Nat} : txn.isCaptured b = true ↔ txn.mark b = some true := by
  rw [isCaptured_eq, mark, event_record]
  cases txn.bufferBytes b with
  | some v => simp
  | none => split_ifs <;> simp

structure Tints (S : Finset Nat) (txn txn' : Transaction) : Prop where
  tid : txn'.tid = txn.tid
  mark : ∀ b ∉ S, txn'.mark b = txn.mark b

theorem Tints.of_record (h : txn'.record = txn.record) : Tints S txn txn' where
  tid := congrArg TxnRecord.tid h
  mark b _ := by rw [Transaction.mark, h, Transaction.mark]

theorem Tints.of_event {e : Option (Option Block)} (h : bid ∈ S) (htid : txn'.tid = txn.tid)
    (hevent : ∀ b, txn'.record.event b = if b = bid then e else txn.record.event b) : Tints S txn txn' where
  tid := htid
  mark b hb := by rw [Transaction.mark, hevent, if_neg (ne_of_mem_of_not_mem h hb).symm, Transaction.mark]

theorem Tints.trans (h1 : Tints S txn txn') (h2 : Tints S txn' txn'') : Tints S txn txn'' where
  tid := h2.tid.trans h1.tid
  mark b hb := (h2.mark b hb).trans (h1.mark b hb)

theorem tints_applyPatch (h : txn.applyPatch bid generation f = .ok txn') : Tints S txn txn' := by
  obtain ⟨htid, v, hv, hevent⟩ := applyPatch_ok h
  refine ⟨htid, fun b _ => ?_⟩
  rw [mark, hevent, mark]
  split_ifs with heq
  · rw [heq, event_eq_some.mpr hv]
    rfl
  · rfl

end Transaction

namespace JournalState

variable {S : Finset Nat} {st : JournalState} {txn txn' : Transaction} {tid : Tid} {h : Handle}
  {g : JournalGeometry} {bid : Nat}

structure Tints (S : Finset Nat) (tid : Tid) (st st' : JournalState) : Prop where
  images : st'.uncheckpointed = st.uncheckpointed
  pins : st'.pinnedFrees = st.pinnedFrees
  mark : ∀ b ∉ S, (st'.activeTxn tid).map (·.mark b) = (st.activeTxn tid).map (·.mark b)

theorem Tints.refl (S : Finset Nat) (tid : Tid) (st : JournalState) : Tints S tid st st := ⟨rfl, rfl, fun _ _ => rfl⟩

theorem setActive_rest (st : JournalState) (txn : Transaction) :
    (st.setActive txn).uncheckpointed = st.uncheckpointed ∧ (st.setActive txn).pinnedFrees = st.pinnedFrees := by
  unfold setActive
  split_ifs <;> exact ⟨rfl, rfl⟩

theorem tints_setActive (hactive : st.activeTxn tid = some txn) (ht : Transaction.Tints S txn txn') :
    Tints S tid st (st.setActive txn') where
  images := (setActive_rest st txn').1
  pins := (setActive_rest st txn').2
  mark b hb := by
    rw [activeTxn_setActive hactive (ht.tid.trans (activeTxn_tid hactive)), hactive, map_some, ht.mark b hb]
    rfl

theorem tints_settleCapture {fresh : Bool} (hactive : st.activeTxn h.tid = some txn)
    (ht : Transaction.Tints S txn txn') :
    (settleCapture g h st fresh generation txn').2.1.tid = h.tid ∧
      Tints S h.tid st (settleCapture g h st fresh generation txn').2.2 := by
  unfold settleCapture
  split_ifs
  · exact ⟨(charge_credits g h txn').1, tints_setActive hactive (ht.trans (.of_record (record_charge g h txn')))⟩
  · exact ⟨rfl, tints_setActive hactive ht⟩

theorem tints_getWriteAccess (hbid : bid ∈ S) (g : JournalGeometry) (h : Handle) (device : Option Block)
    (st : JournalState) :
    (st.getWriteAccess g h bid device).2.1.tid = h.tid ∧
      Tints S h.tid st (st.getWriteAccess g h bid device).2.2 := by
  unfold getWriteAccess
  split
  · exact ⟨rfl, .refl S h.tid st⟩
  · next txn hactive =>
    obtain ⟨htid, hevent⟩ := txn.captureWrite_spec bid (st.captureSeed h.tid bid) device
    have ht : Transaction.Tints S txn (txn.captureWrite bid (st.captureSeed h.tid bid) device).2 :=
      .of_event hbid htid hevent
    split
    · next hcap =>
      rw [hcap] at ht
      exact ⟨rfl, tints_setActive hactive ht⟩
    · next hcap =>
      rw [hcap] at ht
      exact tints_settleCapture hactive ht

theorem tints_getCreateAccess (hbid : bid ∈ S) (g : JournalGeometry) (h : Handle) (st : JournalState) :
    (st.getCreateAccess g h bid).2.1.tid = h.tid ∧
      Tints S h.tid st (st.getCreateAccess g h bid).2.2 := by
  unfold getCreateAccess
  split
  · exact ⟨rfl, .refl S h.tid st⟩
  · next txn hactive =>
    obtain ⟨htid, hevent⟩ := txn.captureCreate_spec bid
    exact tints_settleCapture hactive (.of_event hbid htid hevent)

theorem tints_patch {st' : JournalState} (hpatch : st.patch tid bid generation f = .ok st') : Tints S tid st st' := by
  unfold patch at hpatch
  split at hpatch
  · cases hpatch
  · next txn hactive =>
    cases happ : txn.applyPatch bid generation f with
    | error e =>
      rw [happ] at hpatch
      cases hpatch
    | ok txn' =>
      rw [happ] at hpatch
      cases hpatch
      exact tints_setActive hactive (Transaction.tints_applyPatch happ)

end JournalState

namespace Fs

def marks (fs : Fs) (b : Nat) : Option (Option Bool × Bool) :=
  match fs.handle, fs.journal with
  | some h, some j => (j.state.activeTxn h.tid).map fun txn => (txn.mark b, (j.state.uncheckpointed b).isSome)
  | _, _ => none

def pins (fs : Fs) : Option (SortedMap Nat PinnedRun) := fs.journal.map fun j => j.state.pinnedFrees

structure Tints (S : Finset Nat) (fs fs' : Fs) : Prop where
  tid : fs'.handle.map Handle.tid = fs.handle.map Handle.tid
  pins : fs'.pins = fs.pins
  marks : ∀ b ∉ S, fs'.marks b = fs.marks b

instance (S : Finset Nat) : IsPreorder Fs (Tints S) where
  refl _ := ⟨rfl, rfl, fun _ _ => rfl⟩
  trans _ _ _ h₁ h₂ := ⟨h₂.tid.trans h₁.tid, h₂.pins.trans h₁.pins, fun b hb => (h₂.marks b hb).trans (h₁.marks b hb)⟩

def Adds (S : Finset Nat) (fs fs' : Fs) : Prop :=
  ∀ b, fs'.captured b = true → fs.captured b = true ∨ b ∈ S

instance (S : Finset Nat) : IsPreorder Fs (Adds S) where
  refl _ _ h := .inl h
  trans _ _ _ h₁ h₂ b h := (h₂ b h).elim (h₁ b) .inr

theorem captured_iff {fs : Fs} {b : Nat} : fs.captured b = true ↔ (fs.marks b).map Prod.fst = some (some true) := by
  unfold captured marks
  rcases fs.handle with _ | h
  · simp
  · rcases fs.journal with _ | j
    · simp
    · simp [any_eq_true, Transaction.isCaptured_iff_mark]

theorem Tints.adds {S : Finset Nat} {fs fs' : Fs} (h : Tints S fs fs') : Adds S fs fs' := fun b hb =>
  or_iff_not_imp_right.mpr fun hS => by rwa [captured_iff, h.marks b hS, ← captured_iff] at hb

section Funnel

variable {α : Type} {S : Finset Nat} (g : JournalGeometry) {bid : Nat}

theorem underHandle_tints (inert : α) {f : Handle → JournalState → Except Fault α × Handle × JournalState}
    (hf : ∀ h st, (f h st).2.1.tid = h.tid ∧ JournalState.Tints S h.tid st (f h st).2.2) :
    Keeps (Tints S) (underHandle inert f) := by
  intro fs
  unfold underHandle
  cases hh : fs.handle with
  | none => exact refl_of (Tints S) fs
  | some h =>
    cases hj : fs.journal with
    | none => exact refl_of (Tints S) fs
    | some j =>
      obtain ⟨htid, ht⟩ := hf h j.state
      refine ⟨by simp [hh, htid], by simp [pins, hj, Journal.withState, ht.pins], fun b hb => ?_⟩
      have hmark := ht.mark b hb
      simp only [marks, hh, hj, Journal.withState, htid, ht.images]
      cases hold : j.state.activeTxn h.tid <;> cases hnew : (f h j.state).2.2.activeTxn h.tid <;>
        simp_all

theorem keepOnError_tints {f : Handle → JournalState → Except Fault JournalState}
    (hf : ∀ h st st', f h st = .ok st' → JournalState.Tints S h.tid st st') :
    Keeps (Tints S) (underHandle () fun h st => keepOnError h st (f h st)) :=
  underHandle_tints () fun h st => by
    cases hres : f h st with
    | error e => exact ⟨rfl, .refl S h.tid st⟩
    | ok st' => exact ⟨rfl, hf h st st' hres⟩

theorem getWriteAccess_tints (h : bid ∈ S) : Keeps (Tints S) (getWriteAccess g bid) := by
  intro fs
  refine underHandle_tints _ (fun hd st => ?_) fs
  exact tints_getWriteAccess h g hd (fs.device bid) st

theorem patch_tints (access : WriteAccess) (f : Block → Block) : Keeps (Tints S) (patch access f) := by
  unfold patch
  split
  · exact .ret ()
  · exact keepOnError_tints fun _ _ _ hpatch => tints_patch hpatch

theorem capturePatch_tints (h : bid ∈ S) (f : Block → Block) :
    Keeps (Tints S) (capturePatch g bid f) :=
  .bind (getWriteAccess_tints g h) fun access => patch_tints access f

theorem getCreateAccess_tints (h : bid ∈ S) : Keeps (Tints S) (getCreateAccess g bid) :=
  underHandle_tints _ fun hd st => tints_getCreateAccess h g hd st

theorem requestCommitOfRunning_adds : Keeps (Adds S) requestCommitOfRunning := by
  refine .modify fun fs b hb => .inl ?_
  cases hh : fs.handle with
  | none => simp [captured, hh] at hb
  | some h =>
    cases hj : fs.journal with
    | none => simp [captured, hh, hj] at hb
    | some j =>
      simp only [captured, hh, hj, map_some, Journal.withState] at hb ⊢
      rwa [activeTxn_requestCommitOfRunning] at hb

end Funnel

end Fs

namespace BlockGroup

open Fs

variable {S : Finset Nat} (g : JournalGeometry)

theorem publish_tints {group : BlockGroup} {access : WriteAccess} (hdesc : group.descBlockBid ∈ S)
    (bitmap : IdBitmap) (metadata : BlockGroupMetadata) :
    Keeps (Tints S) (publish g group access bitmap metadata) :=
  .bind (patch_tints access _) fun _ => capturePatch_tints g hdesc _

theorem allocBlocks_adds (fs : Fs) (idx count sbFreeBlocks : Nat) (pinnedFrees : List (Nat × Nat)) :
    (allocBlocks g idx count sbFreeBlocks pinnedFrees).Ends fs
      (fun res fs' => fs.Adds (match res with
        | .allocated _ => {(fs.groups idx).metadata.desc.blockBitmapBid, (fs.groups idx).descBlockBid}
        | .noFit _ => {(fs.groups idx).metadata.desc.blockBitmapBid}) fs')
      fun _ fs' => fs.Adds
        {(fs.groups idx).metadata.desc.blockBitmapBid, (fs.groups idx).descBlockBid} fs' := by
  have hmono : ∀ fs', fs.Adds {(fs.groups idx).metadata.desc.blockBitmapBid} fs' → fs.Adds
      {(fs.groups idx).metadata.desc.blockBitmapBid, (fs.groups idx).descBlockBid} fs' :=
    fun fs' h b hb => (h b hb).imp_right fun hb => mem_insert.mpr (.inl (mem_singleton.mp hb))
  refine .bind_get ?_
  refine ((getWriteAccess_tints g (mem_singleton_self _)).ends fs).bindOr (fun _ fs1 h1 => hmono fs1 h1.adds)
    fun access fs1 h1 => ?_
  replace h1 := h1.adds
  split
  · refine .bind_modify ?_
    split_ifs
    · exact .fail (hmono _ h1)
    · exact .ret h1
  · dsimp only
    split_ifs
    · exact .bind_modify (.fail (hmono _ h1))
    · refine .bind_modify ?_
      have hdesc : (fs.groups idx).descBlockBid ∈
          ({(fs.groups idx).metadata.desc.blockBitmapBid, (fs.groups idx).descBlockBid} : Finset Nat) :=
        mem_insert_of_mem (mem_singleton_self _)
      have hstep : ∀ fs2 fs3 : Fs, fs1.captured = fs2.captured →
          fs2.Adds {(fs.groups idx).metadata.desc.blockBitmapBid, (fs.groups idx).descBlockBid} fs3 →
          fs.Adds {(fs.groups idx).metadata.desc.blockBitmapBid, (fs.groups idx).descBlockBid} fs3 := by
        intro fs2 fs3 hsame h b hb
        rcases h b hb with h | h
        · rw [← hsame] at h
          exact hmono fs1 h1 b h
        · exact .inr h
      refine Op.Ends.bind (Q := fun _ fs3 => fs.Adds
          {(fs.groups idx).metadata.desc.blockBitmapBid, (fs.groups idx).descBlockBid} fs3)
        (((publish_tints g hdesc _ _).ends _).mono (fun _ fs3 h => hstep _ fs3 rfl h.adds)
          fun _ fs3 h => hstep _ fs3 rfl h.adds) fun _ _ h => .ret h

end BlockGroup

namespace Fs

def visited (fs : Fs) (count : Nat) (pinnedFrees : List (Nat × Nat)) : List Nat → List Nat
  | [] => []
  | idx :: ring =>
    match (fs.groups idx).found count fs.sb.freeBlocksCount pinnedFrees with
    | none => idx :: visited fs count pinnedFrees ring
    | some _ => [idx]

theorem mem_visited_self (fs : Fs) (count : Nat) (pinnedFrees : List (Nat × Nat)) (idx : Nat)
    (ring : List Nat) : idx ∈ fs.visited count pinnedFrees (idx :: ring) := by
  unfold visited
  split
  · exact List.mem_cons_self
  · exact List.mem_singleton_self idx

variable {base fs : Fs} {count k : Nat} {pinnedFrees : List (Nat × Nat)} (g : JournalGeometry)

def Stains (base fs : Fs) (i j : Nat) : Prop :=
  base.Adds {(base.groups i).metadata.desc.blockBitmapBid, (base.groups j).descBlockBid,
    SuperBlock.superblockBid} fs

theorem updateSb_tints {S : Finset Nat} (h : superblockBid ∈ S)
    (update : SuperBlock → Except Fault SuperBlock) : Keeps (Tints S) (updateSb g update) :=
  .bind .get fun _ => .bind (.ofExcept _) fun _ => .bind (.modify fun _ => ⟨rfl, rfl, fun _ _ => rfl⟩) fun _ =>
    .bind .get fun _ => capturePatch_tints g h _

theorem searchGroups_adds {ring : List Nat} (hidle : base.Idles fs)
    (hadds : base.Adds {(base.groups k).metadata.desc.blockBitmapBid} fs)
    (hfresh : ∀ idx ∈ base.visited count pinnedFrees ring,
      base.captured (base.groups idx).metadata.desc.blockBitmapBid = true ∨ idx = k)
    (pinnedBlocked : Bool) :
    (searchGroups g count base.sb.freeBlocksCount pinnedFrees ring pinnedBlocked).Leaves fs fun fs' =>
      ∃ j, base.Stains fs' k j := by
  have hstain : ∀ fs', base.Adds {(base.groups k).metadata.desc.blockBitmapBid} fs' →
      ∃ j, base.Stains fs' k j := fun fs' h => ⟨0, fun b hb => (h b hb).imp_right fun hb =>
    mem_insert.mpr (.inl (mem_singleton.mp hb))⟩
  induction ring generalizing fs pinnedBlocked with
  | nil =>
    unfold searchGroups
    split_ifs
    · refine (requestCommitOfRunning_adds.ends fs).bindOr (fun _ fs' h =>
        hstain fs' (trans_of (Adds _) hadds h)) fun _ fs' h => .fail (hstain fs' (trans_of (Adds _) hadds h))
    · exact .fail (hstain fs hadds)
  | cons idx ring ih =>
    have hgroup : fs.groups idx = base.groups idx := by rw [hidle.groups]
    have hbitmap := hfresh idx (base.mem_visited_self count pinnedFrees idx ring)
    have hsettles := BlockGroup.allocBlocks_settles g fs idx count base.sb.freeBlocksCount pinnedFrees
    have hcaptures := BlockGroup.allocBlocks_adds g fs idx count base.sb.freeBlocksCount pinnedFrees
    rw [hgroup] at hsettles hcaptures
    have hpair : ∀ fs', fs.Adds {(base.groups idx).metadata.desc.blockBitmapBid,
        (base.groups idx).descBlockBid} fs' → base.Stains fs' k idx := by
      intro fs' h b hb
      simp only [mem_insert, mem_singleton]
      rcases h b hb with hold | hnew
      · exact (hadds b hold).imp_right fun hk => .inl (mem_singleton.mp hk)
      · rcases mem_insert.mp hnew with rfl | hdesc
        · exact hbitmap.imp_right fun hk => .inl (by rw [hk])
        · exact .inr (.inr (.inl (mem_singleton.mp hdesc)))
    refine Op.Ends.bind (Q := fun res fs1 =>
        BlockGroup.Settled fs idx count base.sb.freeBlocksCount pinnedFrees fs1 res ∧ fs.Adds _ fs1)
      ((hsettles.and hcaptures).mono (fun _ _ h => h) fun _ fs1 h => ⟨idx, hpair fs1 h.2⟩)
      fun res fs1 h1 => ?_
    obtain ⟨hsettled, hnew⟩ := h1
    cases res with
    | allocated r =>
      have hfinal : ∀ fs', fs1.Adds {(base.groups k).metadata.desc.blockBitmapBid,
          (base.groups idx).descBlockBid, superblockBid} fs' → ∃ j, base.Stains fs' k j :=
        fun fs' h => ⟨idx, trans_of (Adds _) (hpair fs1 hnew) h⟩
      have hsb : superblockBid ∈ ({(base.groups k).metadata.desc.blockBitmapBid,
          (base.groups idx).descBlockBid, superblockBid} : Finset Nat) := by
        simp
      exact (((updateSb_tints g hsb _).ends fs1).mono (fun _ fs' h => hfinal fs' h.adds)
        fun _ fs' h => hfinal fs' h.adds).bind fun _ _ h => .ret h
    | noFit pinnedInGroup =>
      obtain ⟨hkept, hnone, -⟩ := hsettled
      rw [hgroup] at hnone
      refine ih (trans_of Idles hidle hkept) (fun b hb => ?_) (fun i hi => hfresh i ?_) _
      · rcases hnew b hb with hold | hbit
        · exact hadds b hold
        · rw [mem_singleton.mp hbit]
          exact hbitmap.imp_right fun hk => mem_singleton.mpr (by rw [hk])
      · rw [visited, hnone]
        exact List.mem_cons_of_mem idx hi

end Fs

structure Row where
  groups : Nat
  credits : Nat
  groups_pos : 0 < groups
  groups_le : groups ≤ 42

namespace Row

variable (v : Row)

def sb : SuperBlock where
  inodesCount := 16 * v.groups
  blocksCount := 128 * v.groups
  freeBlocksCount := 128
  freeInodesCount := 16 * v.groups - 12
  firstDataBlock := 0
  blocksPerGroup := 128
  inodesPerGroup := 16
  nrBlockGroups := v.groups
  descSize := 32
  firstIno := 11
  lastOrphan := none
  is64bit := false
  hasMetadataCsum := false

def desc (idx : Nat) : BlockGroupDesc where
  blockBitmapBid := 2 + idx
  inodeBitmapBid := 2 + v.groups + idx
  inodeTableBid := 2 + 2 * v.groups + idx
  freeBlocksCount := if idx + 1 = v.groups then 128 else 0
  freeInodesCount := if idx = 0 then 4 else 16
  usedDirsCount := if idx = 0 then 1 else 0
  flags := 0
  itableUnused := if idx = 0 then 4 else 16

def blockBits (idx : Nat) : Block :=
  if idx + 1 = v.groups then Bytes.zeros _ else Bytes.setBits (Bytes.zeros _) 0 128 true

def inodeBits (idx : Nat) : Block :=
  if idx = 0 then Bytes.setBits (Bytes.zeros _) 0 12 true else Bytes.zeros _

def group (idx : Nat) : BlockGroup where
  groupIdx := idx
  firstBlock := 128 * idx
  lastBlock := 128 * idx + 127
  nrInodeTableBlocksPerGroup := 1
  nrInodesPerGroup := 16
  nrBlocksPerGroup := 128
  descSize := 32
  descOffset := 4096 + 32 * idx
  csumSeed := none
  metadata := {
    desc := v.desc idx
    blockBitmap := .fromBuf (v.blockBits idx) 128 (by decide)
    inodeBitmap := .fromBuf (inodeBits idx) 16 Specimen.bits_16 }

def device (b : Nat) : Option Block :=
  if b = 0 then some (v.sb.patchInto none (Bytes.zeros _))
  else if b = 1 then some ((List.range v.groups).foldl
    (fun buf idx => (v.desc idx).patchInto (4096 + 32 * idx) buf) (Bytes.zeros _))
  else if b < 2 + v.groups then some (v.blockBits (b - 2))
  else if b < 2 + 2 * v.groups then some (inodeBits (b - 2 - v.groups))
  else some (Bytes.zeros _)

def txn : Transaction :=
  { Transaction.new (Tid.ofNat 1) with tUpdates := 1, outstandingCredits := v.credits }

def journal (g : JournalGeometry) : Journal :=
  let j := Journal.new g (Tid.ofNat 1) none 0
  { j with state := { j.state with running := some v.txn, nextTid := Tid.ofNat 2 } }

def fs (g : JournalGeometry) : Fs where
  sb := v.sb
  groups := v.group
  journal := some (v.journal g)
  handle := some (journalStart (Tid.ofNat 1) v.credits)
  device := v.device

def three : Row where
  groups := 3
  credits := 8
  groups_pos := by decide
  groups_le := by decide

end Row

end Ext4
