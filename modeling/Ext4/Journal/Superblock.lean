import Ext4.Journal.Restart
import Ext4.Journal.Termination

namespace Ext4

open Bytes JournalGeometry JournalSuperblock RawJournalSuperblock List

section Stamp

variable {raw new : RawJournalSuperblock} {sb : JournalSuperblock}

theorem checksum_stamped (h : raw.sFeatureIncompat &&& (incompatCsumV2 ||| incompatCsumV3) ≠ 0) :
    raw.stampChecksum.sChecksum = raw.stampChecksum.checksum.toNat := by
  have hsum : raw.stampChecksum.checksum = raw.checksum := by
    rw [checksum, slice_stampChecksum _ (by omega), slice_stampChecksum _ (by omega), checksum]
  rw [hsum, stampChecksum, if_pos h]
  exact (getBE_putBE_same (by decide)).trans (Nat.mod_eq_of_lt raw.checksum.toNat_lt)

theorem fromFeatures_hasCsum {bits : UInt32} {l : TagLayout} (h : TagLayout.fromFeatures bits = .ok l)
    (hcsum : l.hasCsum = true) : bits &&& (incompatCsumV2 ||| incompatCsumV3) ≠ 0 := by
  intro hzero
  have hpart : ∀ part, (incompatCsumV2 ||| incompatCsumV3) &&& part = part → bits &&& part = 0 := by
    intro part hpart
    rw [← hpart, ← UInt32.and_assoc, hzero, UInt32.zero_and]
  unfold TagLayout.fromFeatures at h
  simp only [hpart incompatCsumV2 rfl, hpart incompatCsumV3 rfl] at h
  cases h
  cases hcsum

def JournalSuperblock.reread (sb : JournalSuperblock) (raw : RawJournalSuperblock) : JournalSuperblock :=
  { sb with sequence := Tid.ofNat raw.sSequence, start := raw.recoveryStart, errno := raw.sErrno }

theorem tryFrom_congr (h : tryFrom raw = .ok sb)
    (hsame : ∀ off len, off + len ≤ 24 ∨ 36 ≤ off ∧ off + len ≤ 88 → slice new off len = slice raw off len)
    (hsum : new.sFeatureIncompat &&& (incompatCsumV2 ||| incompatCsumV3) ≠ 0 →
      new.sChecksum = new.checksum.toNat) : tryFrom new = .ok (sb.reread new) := by
  have hget : ∀ off len, off + len ≤ 24 ∨ 36 ≤ off ∧ off + len ≤ 88 → getBE new off len = getBE raw off len :=
    fun off len hin => congrArg beVal (hsame off len hin)
  have hmagic : new.magic = raw.magic := hget 0 4 (by omega)
  have htype : new.blocktype = raw.blocktype := hget 4 4 (by omega)
  have hsize : new.sBlocksize = raw.sBlocksize := hget 12 4 (by omega)
  have hmax : new.sMaxlen = raw.sMaxlen := hget 16 4 (by omega)
  have hfirst : new.sFirst = raw.sFirst := hget 20 4 (by omega)
  have hcompat : new.sFeatureCompat = raw.sFeatureCompat := congrArg UInt32.ofNat (hget 36 4 (by omega))
  have hbits : new.sFeatureIncompat = raw.sFeatureIncompat := congrArg UInt32.ofNat (hget 40 4 (by omega))
  have huuid : new.sUuid = raw.sUuid := hsame 48 16 (by omega)
  have hkind : new.sChecksumType = raw.sChecksumType := hget 80 1 (by omega)
  have hfeatures : featureIncompat new = featureIncompat raw := by
    rw [featureIncompat, htype, hbits, featureIncompat]
  unfold tryFrom at h ⊢
  simp only [hmagic, htype, hsize, hmax, hfirst, hcompat, hfeatures, huuid, hkind] at h ⊢
  split_ifs at h with h1 h2 h3 h4 h5
  rw [if_neg h1, if_neg h2, if_neg h3, if_neg h4, dif_neg h5]
  cases hl : TagLayout.fromFeatures (featureIncompat raw) with
  | error e =>
    rw [hl] at h
    cases h
  | ok layout =>
    rw [hl] at h
    dsimp only at h ⊢
    split at h
    · cases h
    split at h
    · cases h
    split at h
    · cases h
    rename_i h6 h7 _
    cases h
    rw [if_neg h6, if_neg h7, if_neg]
    · rfl
    rintro ⟨hcsum, hne⟩
    apply hne (hsum _)
    have hset := fromFeatures_hasCsum hl hcsum
    unfold featureIncompat at hset
    split at hset
    · rwa [hbits]
    · exact absurd UInt32.zero_and hset

end Stamp

inductive SuperEdit where
  | tail (start : Nat) (tid : Tid)
  | checkpoint (tid : Tid) (head : Nat) (pass : CheckpointPass)
  | errno

namespace SuperEdit

variable {g : JournalGeometry} {j : Journal} {raw : RawJournalSuperblock} {sb : JournalSuperblock}

def program (g : JournalGeometry) : SuperEdit → JournalIo Journal Unit
  | .tail start tid => g.updateSuperblockTail start tid
  | .checkpoint tid head pass => publishTail g tid head pass
  | .errno => writeErrnoToSuper g

def image (j : Journal) (raw : RawJournalSuperblock) : SuperEdit → RawJournalSuperblock
  | .tail start tid => (raw.withStart start).withSequence tid
  | .checkpoint tid head pass =>
    if pass.stoppedEarly then (raw.withStart pass.log).withSequence pass.tid
    else ((raw.withStart 0).withSequence tid.next).withHead head
  | .errno => raw.withErrno j.sbError

def edited (j : Journal) (raw : RawJournalSuperblock) (e : SuperEdit) : RawJournalSuperblock :=
  (e.image j raw).stampChecksum

theorem tryFrom_edited (h : tryFrom raw = .ok sb) (e : SuperEdit) :
    tryFrom (edited j raw e) = .ok (sb.reread (edited j raw e)) := by
  apply tryFrom_congr h
  · intro off len h
    rw [edited, slice_stampChecksum _ (by omega)]
    rcases e with ⟨start, tid⟩ | ⟨tid, head, ⟨log, ptid, _, _ | _⟩⟩ | _
    all_goals
      simp only [image, withStart, withSequence, withHead, withErrno, Bool.false_eq_true, if_false, if_true]
      repeat rw [slice_putBE_disjoint (by omega)]
  · intro hbits
    rw [edited, sFeatureIncompat, getBE_stampChecksum _ (by omega)] at hbits
    exact checksum_stamped hbits

variable {w : World Block Journal}

def block (j : Journal) (e : SuperEdit) (b : Block) : Block := putRaw (edited j (rawOfBlock b) e) b

theorem run_program (hm : g.Mapped w.disk.size) (e : SuperEdit) :
    (e.program g).run World.handle w = (.ok (), ⟨(w.disk.write (g.physical 0)
      (e.block w.mem (w.disk.view (g.physical 0)))).barrier, w.mem⟩) := by
  have hread := hm.run_readRawSuperblock
  rcases e with ⟨start, tid⟩ | ⟨tid, head, ⟨log, ptid, _, _ | _⟩⟩ | _
  · exact hm.run_updateSuperblockTail start tid
  · exact (Prog.run_bind_ok _ hread).trans (hm.run_writeSuperblock _)
  · exact hm.run_updateSuperblockTail log ptid
  · exact (Prog.run_bind_ok _ hread).trans (hm.run_writeSuperblock _)

theorem after_program (hm : g.Mapped w.disk.size) (e : SuperEdit) (n : Nat) :
    let d := w.disk.write (g.physical 0) (e.block w.mem (w.disk.view (g.physical 0)))
    ((e.program g).after World.handle n w).disk ∈ [w.disk, d, d.barrier] := by
  intro d
  have hlt := hm.physical_lt g.maxlen_pos
  have hbind : ∀ f : RawJournalSuperblock → JournalIo Journal Unit,
      (∀ n, ((f (rawOfBlock (w.disk.view (g.physical 0)))).after World.handle n w).disk ∈ [w.disk, d, d.barrier]) →
      ((g.readRawSuperblock.bind f).after World.handle n w).disk ∈ [w.disk, d, d.barrier] := by
    intro f hf
    apply Prog.after_bind World.handle (P := fun t => t.disk ∈ [w.disk, d, d.barrier])
    · intro n
      rw [Prog.after_of_reads (readRawSuperblock_reads g)]
      exact mem_cons_self
    · intro _ t ht
      cases hm.run_readRawSuperblock.symm.trans ht
      exact hf
  rcases e with ⟨start, tid⟩ | ⟨tid, head, ⟨log, ptid, _, _ | _⟩⟩ | _
  iterate 3 exact hbind _ (after_writeSuperblock _ hlt)
  apply hbind
  intro n
  cases n with
  | zero => exact mem_cons_self
  | succ n => exact after_writeSuperblock _ hlt n

end SuperEdit

structure Loads (p : Nat) (sb : JournalSuperblock) (raw : RawJournalSuperblock) (d : Disk Block) : Prop where
  holds : rawOfBlock (d.durable p) = raw
  parses : tryFrom raw = .ok (sb.reread raw)
  settled : ∀ x ∈ d.pending, x.1 ≠ p

theorem Loads.crash {p : Nat} {sb : JournalSuperblock} {raw new : RawJournalSuperblock} {d d' c : Disk Block}
    {b : Block} (h : Loads p sb raw d) (hb : rawOfBlock b = new) (hnew : tryFrom new = .ok (sb.reread new))
    (hd : d' ∈ [d, d.write p b, (d.write p b).barrier]) (hc : d'.Crash c) : Loads p sb raw c ∨ Loads p sb new c := by
  have hnil : ∀ x ∈ c.pending, x.1 ≠ p := by simp [hc.pending_nil]
  have hblock : c.durable p = d.durable p ∨ c.durable p = b := by
    simp only [mem_cons, not_mem_nil, or_false] at hd
    rcases hd with rfl | rfl | rfl <;> rcases hc.pointwise p with hp | hp
    · exact .inl hp
    · exact absurd rfl (h.settled _ hp)
    · exact .inl hp
    · rcases mem_append.mp hp with hx | hx
      · exact absurd rfl (h.settled _ hx)
      · exact .inr (congrArg Prod.snd (mem_singleton.mp hx))
    · exact .inr (hp.trans (by simp [Disk.barrier]))
    · cases hp
  rcases hblock with hp | hp
  · exact .inl ⟨by rw [hp, h.holds], h.parses, hnil⟩
  · exact .inr ⟨by rw [hp, hb], hnew, hnil⟩

open SuperEdit in
theorem journal_superblock_survives_crashes {g : JournalGeometry} {sb : JournalSuperblock}
    {raw : RawJournalSuperblock} {d : Disk Block} (hm : g.Mapped d.size) (h : Loads (g.physical 0) sb raw d)
    (j : Journal) (edits : List SuperEdit) :
    (∃ d', (edits.forM (program g)).run World.handle ⟨d, j⟩ = (.ok (), ⟨d', j⟩) ∧
      Loads (g.physical 0) sb (edits.foldl (edited j) raw) d') ∧
    ∀ n c, ((edits.forM (program g)).after World.handle n ⟨d, j⟩).disk.Crash c →
      ∃ k ≤ edits.length, Loads (g.physical 0) sb ((edits.take k).foldl (edited j) raw) c := by
  induction edits generalizing d raw with
  | nil =>
    refine ⟨⟨d, rfl, h⟩, ?_⟩
    intro n c hc
    exact ⟨0, le_rfl, (h.crash h.holds h.parses mem_cons_self hc).elim id id⟩
  | cons e edits ih =>
    have hview : d.view (g.physical 0) = d.durable (g.physical 0) := Disk.applyWrites_other h.settled
    have hb : rawOfBlock (e.block j (d.view (g.physical 0))) = edited j raw e := by
      rw [SuperEdit.block, rawOfBlock_putRaw, hview, h.holds]
    have hnew := tryFrom_edited (j := j) h.parses e
    have hrun := e.run_program (w := ⟨d, j⟩) hm
    obtain ⟨⟨d', hrun', hd'⟩, hcrash⟩ := ih
      (d := (d.write (g.physical 0) (e.block j (d.view (g.physical 0)))).barrier) hm
      ⟨by rw [← hb]; simp [Disk.barrier], hnew, fun x hx => absurd hx not_mem_nil⟩
    refine ⟨⟨d', (Prog.run_bind_ok _ hrun).trans hrun', hd'⟩, ?_⟩
    intro n
    apply Prog.after_bind World.handle (P := fun t => ∀ c, t.disk.Crash c →
      ∃ k ≤ (e :: edits).length, Loads (g.physical 0) sb (((e :: edits).take k).foldl (edited j) raw) c)
    · intro n c hc
      rcases h.crash hb hnew (e.after_program hm n) hc with hold | hnew
      · exact ⟨0, zero_le, hold⟩
      · exact ⟨1, Nat.succ_le_succ (zero_le), hnew⟩
    · intro _ t ht n c hc
      cases hrun.symm.trans ht
      obtain ⟨k, hk, hload⟩ := hcrash n c hc
      exact ⟨k + 1, Nat.succ_le_succ hk, hload⟩

open SuperEdit in
theorem journal_superblock_survives_crashes_small : ∃ sb raw d d', Loads 0 sb raw d ∧
    (([.checkpoint (Tid.ofNat 5) 3 ⟨1, Tid.ofNat 5, true, false⟩, .errno] : List SuperEdit).forM
      (program .small)).run World.handle ⟨d, Replayed.journal⟩ = (.ok (), ⟨d', Replayed.journal⟩) := by
  obtain ⟨sb, hok, -⟩ := Widest.accepted
  obtain ⟨raw, hraw⟩ : ∃ raw, tryFrom raw = .ok (sb.reread raw) :=
    ⟨_, tryFrom_edited (j := Replayed.journal) hok (.tail 1 (Tid.ofNat 5))⟩
  obtain ⟨b, hb⟩ : ∃ b, rawOfBlock b = raw := ⟨_, rawOfBlock_putRaw raw Widest.superBlock⟩
  have h : Loads 0 sb raw ⟨8, fun _ => b, []⟩ := ⟨hb, hraw, fun x hx => absurd hx not_mem_nil⟩
  have hm : JournalGeometry.small.Mapped 8 := ⟨by decide, by decide⟩
  obtain ⟨⟨d', hrun, -⟩, -⟩ := journal_superblock_survives_crashes (g := .small) hm h Replayed.journal _
  exact ⟨sb, raw, _, d', h, hrun⟩

end Ext4
