import Ext4.Journal.Committer
import Ext4.Journal.LogDevice
import Ext4.Journal.LogTxn

namespace Ext4

open DescriptorRun List

variable {g : JournalGeometry}

def Transaction.record (txn : Transaction) : TxnRecord :=
  ⟨txn.tid, txn.metadataBlocks, txn.revokedBlocks⟩

structure TxnRecord.Loggable (g : JournalGeometry) (rec : TxnRecord) : Prop where
  captures_ne : rec.captures ≠ []
  captures_enc : ∀ p ∈ rec.captures, g.tagLayout.Encodable p.1
  revokes_enc : ∀ b ∈ rec.revokes, g.tagLayout.Encodable b

theorem tailOk_of_sealed {block : Block} (h : sealedTail g.csumSeed block) :
    tailOk g block = true := by
  unfold tailOk
  cases hs : g.csumSeed with
  | none => rfl
  | some s => exact h s hs

theorem units_of_runs {tid : Tid} {cs : List (List (Nat × Block))}
    (hc : ∀ c ∈ cs, c ≠ [] ∧ c.length ≤ g.tagLayout.tagsPerDescriptor)
    (henc : ∀ c ∈ cs, ∀ p ∈ c, g.tagLayout.Encodable p.1) :
    ∃ chain us, cs.mapM (buildDescriptorRun tid g.tagLayout g.csumSeed) = .ok chain ∧
      (∀ u ∈ us, u.Sound g tid) ∧ unitBlocks us = chain.flatMap logBlocks ∧
      unitCaptures us = cs.flatten ∧ unitRevokes us = [] ∧ chain.length = cs.length ∧
      (chain.map fun run => run.blocks.length).sum = cs.flatten.length ∧
      (unitBlocks us).length = cs.flatten.length + cs.length := by
  induction cs with
  | nil => exact ⟨[], [], rfl, by simp, rfl, rfl, rfl, rfl, rfl, rfl⟩
  | cons c cs ih =>
    obtain ⟨chain, us, hmap, hsound, hblocks, hcaps, hrevs, hruns, hdata, hlen⟩ :=
      ih (fun d hd => hc d (by simp [hd])) fun d hd => henc d (by simp [hd])
    obtain ⟨hne, hmax⟩ := hc c (by simp)
    obtain ⟨block, hb, hchain, hwalk, hseal⟩ := @buildDescriptorRun_spec c tid g.csumSeed g.tagLayout
      g.superblock.seed_iff hne hmax (henc c (by simp))
    refine ⟨⟨block, c.map fun p => LoggedBlock.ofImage p.2⟩ :: chain, ⟨.descriptor block (runTags g.tagLayout
      g.csumSeed tid c.length c 0), c.map fun p => (LoggedBlock.ofImage p.2).logged, [], c⟩ :: us, ?_, ?_, ?_,
      ?_, hrevs, ?_, ?_, ?_⟩
    · rw [mapM_cons, hmap]
      exact congrArg (fun x => x >>= fun run => pure (run :: chain)) hb
    · intro u hu
      rcases mem_cons.mp hu with rfl | hu
      · exact .run hchain hwalk (tailOk_of_sealed hseal)
      · exact hsound u hu
    · rw [unitBlocks_cons, hblocks, flatMap_cons]
      simp [LogUnit.blocks, logBlocks, ChainItem.block]
    · simp only [unitCaptures, flatMap_cons, flatten_cons] at hcaps ⊢
      rw [hcaps]
    · rw [length_cons, length_cons, hruns]
    · rw [map_cons, sum_cons, hdata, flatten_cons, length_append, length_map]
    · rw [unitBlocks_cons, length_append, hlen, flatten_cons, length_append]
      simp only [LogUnit.blocks, length_cons, length_map]
      omega

theorem units_of_revokes {tid : Tid} {cs : List (List Nat)}
    (hc : ∀ c ∈ cs, c.length ≤ g.tagLayout.revokeEntriesPerBlock)
    (henc : ∀ c ∈ cs, ∀ b ∈ c, g.tagLayout.Encodable b) :
    ∃ blocks us, cs.mapM (buildRevokeBlock tid g.tagLayout g.csumSeed) = .ok blocks ∧
      (∀ u ∈ us, u.Sound g tid) ∧ unitBlocks us = blocks ∧ unitCaptures us = [] ∧
      unitRevokes us = cs.flatten ∧ blocks.length = cs.length := by
  induction cs with
  | nil => exact ⟨[], [], rfl, by simp, rfl, rfl, rfl, rfl⟩
  | cons c cs ih =>
    obtain ⟨blocks, us, hmap, hsound, hblocks, hcaps, hrevs, hlen⟩ :=
      ih (fun d hd => hc d (by simp [hd])) fun d hd => henc d (by simp [hd])
    obtain ⟨block, hb, hchain, hwalk, hseal⟩ := @buildRevokeBlock_spec tid g.csumSeed g.tagLayout
      g.superblock.seed_iff c (hc c (by simp)) (henc c (by simp))
    refine ⟨block :: blocks, ⟨.revoke block, [], c, []⟩ :: us, ?_, ?_, ?_, hcaps, ?_, congrArg (· + 1) hlen⟩
    · rw [mapM_cons, hmap]
      exact congrArg (fun x => x >>= fun b => pure (b :: blocks)) hb
    · intro u hu
      rcases mem_cons.mp hu with rfl | hu
      · exact .revoke hchain hwalk (tailOk_of_sealed hseal)
      · exact hsound u hu
    · rw [unitBlocks_cons, hblocks]
      rfl
    · simp only [unitRevokes, flatMap_cons, flatten_cons] at hrevs ⊢
      rw [hrevs]

def TxnRecord.footprint (g : JournalGeometry) (rec : TxnRecord) : Nat :=
  (rec.revokes.chunks g.tagLayout.revokeEntriesPerBlock).length + rec.captures.length +
    (rec.captures.chunks g.tagLayout.tagsPerDescriptor).length + 1

theorem exists_loggedTxn {rec : TxnRecord} (h : rec.Loggable g) (now : Timestamp) :
    ∃ revokeBlocks chain, ∃ t : LoggedTxn g rec,
      buildRevokeBlocks rec.tid g.tagLayout g.csumSeed rec.revokes = .ok revokeBlocks ∧
      buildDescriptorChain rec.tid g.tagLayout g.csumSeed rec.captures = .ok chain ∧
      t.commit = buildCommitBlock rec.tid g.csumSeed now ∧
      unitBlocks t.units = revokeBlocks ++ chain.flatMap logBlocks ∧
      nrLogBlocks revokeBlocks chain = rec.footprint g ∧ t.size = rec.footprint g := by
  have hrpos := g.tagLayout.revokeEntriesPerBlock_pos
  have htpos := g.tagLayout.tagsPerDescriptor_pos
  obtain ⟨revokeBlocks, rus, hrb, hrs, hrblocks, hrcaps, hrrevs, hrlen⟩ := @units_of_revokes g rec.tid
    (rec.revokes.chunks g.tagLayout.revokeEntriesPerBlock) (fun c hc => (mem_chunks hrpos hc).2)
    fun c hc b hb => h.revokes_enc b (mem_of_mem_chunks hrpos hc hb)
  obtain ⟨chain, cus, hcb, hcs, hcblocks, hccaps, hcrevs, hruns, hdata, hclen⟩ := @units_of_runs g rec.tid
    (rec.captures.chunks g.tagLayout.tagsPerDescriptor) (fun c hc => mem_chunks htpos hc)
    fun c hc p hp => h.captures_enc p (mem_of_mem_chunks htpos hc hp)
  have hblocks : unitBlocks (rus ++ cus) = revokeBlocks ++ chain.flatMap logBlocks := by
    rw [unitBlocks, flatMap_append, ← unitBlocks, ← unitBlocks, hrblocks, hcblocks]
  obtain ⟨hcommit, hcok⟩ := buildCommitBlock_spec rec.tid g.csumSeed now
  refine ⟨revokeBlocks, chain, ⟨rus ++ cus, buildCommitBlock rec.tid g.csumSeed now, ?_, ?_, ?_,
    hcommit, ?_⟩, hrb, ?_, rfl, hblocks, ?_, ?_⟩
  · intro u hu
    rcases mem_append.mp hu with hu | hu
    · exact hrs u hu
    · exact hcs u hu
  · rw [unitCaptures, flatMap_append, ← unitCaptures, ← unitCaptures, hrcaps, hccaps,
      chunks_flatten htpos, nil_append]
  · rw [unitRevokes, flatMap_append, ← unitRevokes, ← unitRevokes, hrrevs, hcrevs,
      chunks_flatten hrpos, append_nil]
  · unfold commitOk
    split
    · rfl
    · exact hcok _ ‹_›
  · rw [buildDescriptorChain, if_neg (by simpa using h.captures_ne)]
    exact hcb
  · rw [nrLogBlocks, hrlen, hdata, hruns, chunks_flatten htpos]
    rfl
  · rw [LoggedTxn.size, unitBlocks, flatMap_append, ← unitBlocks, ← unitBlocks,
      length_append, hrblocks, hrlen, hclen, chunks_flatten htpos, ← add_assoc]
    rfl

section Run
variable {M : Type} {w : World Block M}

theorem run_update {f : M → Except Fault M} {m : M} (h : f w.mem = .ok m) :
    (Io.update f).run World.handle w = (.ok (), { w with mem := m }) := by
  simp [Io.update, Io.atomically, World.handle, h, Prog.ofExcept, Except.toOption, Except.map]

section

variable (hm : g.Mapped w.disk.size)
include hm

theorem JournalGeometry.Mapped.run_readRawSuperblock :
    g.readRawSuperblock.run World.handle w =
      (.ok (rawOfBlock (w.disk.view (g.physical 0))), w) :=
  g.run_readRawSuperblock (physical_eq g.maxlen_pos) (if_pos (hm.physical_lt g.maxlen_pos))

theorem JournalGeometry.Mapped.run_writeSuperblock (raw : RawJournalSuperblock) :
    (g.writeSuperblock raw).run World.handle w =
      (.ok (), { w with disk := (w.disk.write (g.physical 0)
        (putRaw raw.stampChecksum (w.disk.view (g.physical 0)))).barrier }) :=
  g.run_writeSuperblock (physical_eq g.maxlen_pos) (hm.physical_lt g.maxlen_pos) raw

theorem JournalGeometry.Mapped.run_updateSuperblockTail (start : Nat) (tid : Tid) :
    (g.updateSuperblockTail start tid).run World.handle w =
      (.ok (), { w with disk := (w.disk.write (g.physical 0)
        (putRaw (((rawOfBlock (w.disk.view (g.physical 0))).withStart start).withSequence
          tid).stampChecksum (w.disk.view (g.physical 0)))).barrier }) := by
  rw [updateSuperblockTail, Prog.bind_eq, Prog.run_bind_ok _ hm.run_readRawSuperblock, hm.run_writeSuperblock]

end

end Run

section Commit
variable {w : World Block Journal} {txn : Transaction} {c : CommittingTxn}

def Journal.withCommitting (j : Journal) (c : CommittingTxn) : Journal :=
  { j with state := { j.state with committing := some c } }

@[simp] theorem Journal.withCommitting_committing (j : Journal) (c : CommittingTxn) :
    (j.withCommitting c).state.committing = some c := rfl

@[simp] theorem Journal.withCommitting_withCommitting (j : Journal) (c c' : CommittingTxn) :
    (j.withCommitting c).withCommitting c' = j.withCommitting c' := rfl

theorem run_advancePhase {next : CommitPhase}
    (hc : w.mem.state.committing = some c) (htid : c.txn.tid = txn.tid) (hn : c.phase.nextInPipeline = some next) :
    (Journal.advanceCommittingPhase txn.tid next).run World.handle w =
      (.ok (), { w with mem := w.mem.withCommitting ⟨c.txn, next⟩ }) := by
  apply run_update
  simp [JournalState.advanceCommittingPhase, hc, CommittingTxn.advanceTo, CommittingTxn.tid, htid,
    hn, Except.map, Journal.withCommitting]

theorem run_flushOrderedData (w : World Block Journal) (txn : Transaction) :
    ∃ d, (flushOrderedData txn).run World.handle w = (.ok (), { w with disk := d }) ∧
      d.size = w.disk.size ∧ d.view = w.disk.view := by
  unfold flushOrderedData
  split_ifs
  · exact ⟨w.disk, rfl, rfl, rfl⟩
  · exact ⟨w.disk.barrier, run_barrier w, rfl, w.disk.view_barrier⟩

section

variable (hm : g.Mapped w.disk.size)
include hm

theorem run_recordTail (wasClean : Bool) (start : Nat) (tid : Tid) :
    ∃ d, (recordTail g wasClean start tid).run World.handle w = (.ok (), { w with disk := d }) ∧
      d.size = w.disk.size ∧ ∀ p, p ≠ g.physical 0 → d.view p = w.disk.view p := by
  cases wasClean with
  | false => exact ⟨w.disk, rfl, rfl, fun _ _ => rfl⟩
  | true =>
    refine ⟨_, hm.run_updateSuperblockTail start tid, rfl, fun p hp => ?_⟩
    rw [Disk.view_barrier, Disk.view_write, Function.update_of_ne hp]

theorem run_writeChain {pos : Nat}
    (hpos : g.InRing pos) (hc : w.mem.state.committing = some c) (htid : c.txn.tid = txn.tid)
    (hphase : c.phase = .commit) (revokeBlocks : List Block) (chain : List DescriptorRun) (now : Timestamp) :
    ∃ d, (writeChain g now txn.tid revokeBlocks chain pos).run World.handle w =
        (.ok (), ⟨d, w.mem.withCommitting ⟨c.txn, .commitRecord⟩⟩) ∧
      d.size = w.disk.size ∧
      d.view = Disk.applyWrites (logWrites g ((revokeBlocks ++ chain.flatMap logBlocks) ++
          [buildCommitBlock txn.tid g.csumSeed now]) pos) w.disk.view := by
  have hchain := hpos.advance revokeBlocks.length
  have hcommit := hchain.advance (chain.flatMap logBlocks).length
  let log := g.advance pos revokeBlocks.length
  let written := logWrites g revokeBlocks pos ++
    logWrites g (chain.flatMap logBlocks) log
  have hflush : barrier.run World.handle ((w.issue (logWrites g revokeBlocks pos)).issue
      (logWrites g (chain.flatMap logBlocks) log)) =
      (.ok (), ⟨(w.disk.issue written).barrier, w.mem⟩) := by
    rw [World.issue_issue]
    rfl
  rw [writeChain]
  simp only [Prog.bind_eq]
  rw [Prog.run_bind_ok _ (run_writeLogBlocks hm hpos),
    Prog.run_bind_ok _ (run_writeLogBlocks (w := w.issue _) hm hchain),
    Prog.run_bind_ok _ hflush,
    Prog.run_bind_ok _ (run_advancePhase (w := ⟨(w.disk.issue written).barrier, w.mem⟩) hc htid
      (by rw [hphase]; rfl)),
    Prog.run_bind_ok _ (JournalGeometry.Mapped.run_writeLogBlock
      (w := ⟨(w.disk.issue written).barrier, _⟩) hm hcommit.2 _)]
  refine ⟨_, run_barrier _, rfl, ?_⟩
  rw [logWrites_append, logWrites_append, length_append, g.advance_add]
  simp only [Disk.view_barrier, Disk.view_issue, World.issue_disk, Disk.applyWrites_append, logWrites, written, log]

theorem run_tryCommit (hlog : txn.record.Loggable g)
    (hstaged : w.mem.state.committing = some ⟨txn, .locked⟩) (hhead : g.InRing w.mem.state.head)
    (hring : txn.record.footprint g ≤ g.ring)
    (hfit : txn.record.footprint g ≤ g.freeLogBlocks w.mem.state.head w.mem.state.tailBlock) (now : Timestamp) :
    ∃ t : LoggedTxn g txn.record, ∃ w', t.size = txn.record.footprint g ∧
      (tryCommitTransaction g now txn).run World.handle w = (.ok (.committed txn.tid), w') ∧
      w'.disk.size = w.disk.size ∧
      ∀ p, p ≠ g.physical 0 → w'.disk.view p =
        Disk.applyWrites (logWrites g t.blocks w.mem.state.head) w.disk.view p := by
  obtain ⟨revokeBlocks, chain, t, hrb, hch, hcommit, hblocks, hfoot, hsize⟩ :=
    exists_loggedTxn hlog now
  have hlt : txn.record.footprint g < 2 ^ 32 := by
    have := g.maxlen_lt
    unfold JournalGeometry.ring at hring
    omega
  have hbuild : (tryCommitTransaction g now txn).run World.handle w =
      (commitAt g now txn revokeBlocks chain w.mem.state.head w.mem.state.tailBlock.isNone).run
        World.handle w := by
    have hrb' : buildRevokeBlocks txn.tid g.tagLayout g.csumSeed txn.revokedBlocks =
      .ok revokeBlocks := hrb
    have hch' : buildDescriptorChain txn.tid g.tagLayout g.csumSeed txn.metadataBlocks =
      .ok chain := hch
    simp only [tryCommitTransaction, hrb', hch', Prog.ofExcept, Prog.bind_eq, Prog.ret_bind, hfoot]
    rw [if_neg (not_le.mpr hlt)]
    rw [Io.run_atomically_bind, if_neg (not_lt.mpr hfit)]
    rfl
  obtain ⟨d1, hrun1, hsize1, hview1⟩ :=
    run_flushOrderedData { w with mem := w.mem.withCommitting ⟨txn, .flush⟩ } txn
  have hm1 : g.Mapped d1.size := hsize1 ▸ hm
  obtain ⟨d2, hrun2, hsize2, hview2⟩ := run_writeChain
    (w := ⟨d1, w.mem.withCommitting ⟨txn, .commit⟩⟩) hm1 hhead rfl rfl rfl revokeBlocks chain now
  have hm2 : g.Mapped d2.size := hsize2 ▸ hm1
  obtain ⟨d3, hrun3, hsize3, hview3⟩ := run_recordTail
    (w := ⟨d2, w.mem.withCommitting ⟨txn, .commitRecord⟩⟩) hm2 w.mem.state.tailBlock.isNone
    w.mem.state.head txn.tid
  obtain ⟨j, hj⟩ : ∃ j, Journal.publishCommit txn w.mem.state.head
      (g.advance w.mem.state.head (nrLogBlocks revokeBlocks chain)) w.mem.state.tailBlock.isNone
      (w.mem.withCommitting ⟨txn, .commitRecord⟩) = .ok j := by
    simp [Journal.publishCommit, JournalState.advanceCommittingPhase, CommittingTxn.advanceTo,
      CommittingTxn.tid, CommitPhase.nextInPipeline, Except.map, Bind.bind, Except.bind, pure, Except.pure]
  refine ⟨t, ⟨d3, { j with committedTid := txn.tid }⟩, hsize, ?_, ?_, ?_⟩
  · refine hbuild.trans ((Prog.run_bind_ok _ (run_advancePhase hstaged rfl rfl)).trans ?_)
    refine (Prog.run_bind_ok _ hrun1).trans ?_
    refine (Prog.run_bind_ok _ (@run_advancePhase ⟨d1, w.mem.withCommitting ⟨txn, .flush⟩⟩ txn _ _
      rfl rfl rfl)).trans ?_
    refine (Prog.run_bind_ok _ hrun2).trans ((Prog.run_bind_ok _ hrun3).trans ?_)
    exact Prog.run_bind_ok _ (run_update (w := ⟨d3, _⟩) hj)
  · exact hsize3.trans (hsize2.trans hsize1)
  · intro p hp
    rw [hview3 p hp, hview2, hview1, LoggedTxn.blocks, hblocks, hcommit]
    rfl

end

theorem commit_recovery_round_trip (hm : g.Mapped w.disk.size) (hlog : txn.record.Loggable g)
    (hstaged : w.mem.state.committing = some ⟨txn, .locked⟩) (hhead : g.InRing w.mem.state.head)
    (htail : ∀ tail, w.mem.state.tailBlock = some tail → g.InRing tail)
    (hfit : txn.record.footprint g ≤ g.freeLogBlocks w.mem.state.head w.mem.state.tailBlock) (now : Timestamp) :
    ∃ w', (tryCommitTransaction g now txn).run World.handle w = (.ok (.committed txn.tid), w') ∧
      ∀ fuel, txn.record.footprint g ≤ fuel →
        (scanTransaction g fuel w.mem.state.head txn.tid).run World.handle w' =
          (.ok (some (g.advance w.mem.state.head (txn.record.footprint g))), w') ∧
        (∃ table, (collectTransactionRevokes g fuel w.mem.state.head txn.tid .new).run World.handle
            w' = (.ok (g.advance w.mem.state.head (txn.record.footprint g), table), w') ∧
          ∀ b, table.records b = if b ∈ txn.revokedBlocks then some txn.tid else none) ∧
        ((∀ p ∈ txn.metadataBlocks, p.1 < w.disk.size ∧ p.1 ∉ g.blockMap) → ∀ revoked : RevokeTable,
          (applyLogTransaction g fuel w.mem.state.head txn.tid revoked).run World.handle w' =
            (.ok (g.advance w.mem.state.head (txn.record.footprint g)),
              w'.issue (txn.metadataBlocks.filter fun p => !revoked.suppresses p.1 txn.tid))) := by
  have hring := Nat.le_trans hfit (JournalGeometry.freeLogBlocks_le hhead htail)
  obtain ⟨t, w', hsize, hrun, hdisk, hview⟩ := run_tryCommit hm hlog hstaged hhead hring hfit now
  have hm' : g.Mapped w'.disk.size := hdisk ▸ hm
  have hlaid : Laid g (g.logRead w'.disk) t.blocks w.mem.state.head := by
    rw [laid_iff_view hm' hhead]
    intro i block hi
    have hpos := hhead.advance i
    have hne : g.physical (g.advance w.mem.state.head i) ≠ g.physical 0 := fun he =>
      absurd (hm.physical_inj hpos.2 g.maxlen_pos he) (Nat.ne_of_gt (Nat.lt_of_lt_of_le g.first_pos hpos.1))
    rw [hview _ hne]
    exact view_logWrites hm hhead _ (by rw [t.blocks_length, hsize]; exact hring) hi
  have hmax : t.size ≤ g.maxlen := by
    rw [hsize]
    exact Nat.le_trans hring (Nat.sub_le _ _)
  refine ⟨w', hrun, fun fuel hf => ⟨?_, ⟨RevokeTable.new.recordAll txn.revokedBlocks txn.tid, ?_,
    ?_⟩, fun hdest revoked => ?_⟩⟩
  · rw [← hsize]
    exact t.run_scan hlaid hmax (hsize ▸ hf)
  · rw [← hsize]
    exact t.run_collect hlaid hmax (hsize ▸ hf) .new
  · exact fun b => RevokeTable.records_recordAll_new _ _ b
  · rw [← hsize]
    exact t.run_apply hlaid hmax (hsize ▸ hf) (fun p hp => hdisk ▸ hdest p hp) revoked

def stagedTxn : Transaction := ((Transaction.new (Tid.ofNat 7)).captureCreate 10).2

def stagedWorld : World Block Journal where
  disk := ⟨16, fun _ => Bytes.zeros _, []⟩
  mem := (Journal.new .small (Tid.ofNat 7) none 0).withCommitting ⟨stagedTxn, .locked⟩

theorem commit_recovery_round_trip_staged :
    ∃ w', (tryCommitTransaction .small ⟨0, 0⟩ stagedTxn).run World.handle stagedWorld =
        (.ok (.committed (Tid.ofNat 7)), w') ∧
      (applyLogTransaction .small 3 1 (Tid.ofNat 7) .new).run World.handle w' =
        (.ok 4, w'.issue [(10, Bytes.zeros _)]) := by
  have hm : JournalGeometry.small.Mapped stagedWorld.disk.size := ⟨by decide, by decide⟩
  have hlog : stagedTxn.record.Loggable .small := by
    refine ⟨List.cons_ne_nil _ _, fun p hp => ?_, fun b hb => ?_⟩
    · obtain rfl := List.mem_singleton.mp hp
      exact ⟨by decide, fun _ => by decide⟩
    · cases hb
  obtain ⟨w', hrun, hrest⟩ := commit_recovery_round_trip hm hlog rfl ⟨by decide, by decide⟩
    (fun _ h => by cases h) (by decide) ⟨0, 0⟩
  refine ⟨w', hrun, (hrest 3 (by decide)).2.2 (fun p hp => ?_) .new⟩
  obtain rfl := List.mem_singleton.mp hp
  exact ⟨by decide, by decide⟩

end Commit

end Ext4
