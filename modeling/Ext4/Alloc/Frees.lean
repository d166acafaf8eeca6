import Ext4.Alloc.Captures

namespace Ext4

open Op

variable {g : JournalGeometry} {h : Handle} {b count : Nat} {t : Tid}

namespace Fs

variable {fs fs' base : Fs} {idx startBit start current n : Nat} {duty : Bool}

def PinnedTo (fs : Fs) (b : Nat) (t : Tid) : Prop :=
  ∃ pins, fs.pins = some pins ∧ ∃ s r, pins.get s = some r ∧ s ≤ b ∧ b < s + r.count ∧ r.tid = t

theorem PinnedTo.congr (hp : fs'.pins = fs.pins) : fs'.PinnedTo b t ↔ fs.PinnedTo b t := by rw [PinnedTo, hp, PinnedTo]

section

variable (hr : fs.Ready) (ht : fs.handle.map Handle.tid = some t)
include hr ht

theorem Ready.tid_live :
    ∃ h j txn, fs.Live h j txn ∧ h.tid = t := by
  obtain ⟨h, hh, htid⟩ := Option.map_eq_some_iff.mp ht
  cases hr with
  | plain hn _ => simp [hn] at hh
  | live hl => exact ⟨_, _, _, hl, by rwa [Option.some.inj (hl.handle.symm.trans hh)]⟩

theorem dischargeDuty_marks (duty : Bool) (start count : Nat) :
    (dischargeDuty duty start count).Ends fs (fun _ fs' => fs'.handle = fs.handle ∧ fs'.pins = fs.pins ∧
      (∀ b ∉ run start count, fs'.marks b = fs.marks b) ∧
      (duty = true → ∀ b ∈ run start count, fs'.marks b = some (some false, false))) fun _ _ => False := by
  obtain ⟨h, j, txn, hl, -⟩ := hr.tid_live ht
  cases duty with
  | false => exact .ret ⟨rfl, rfl, fun _ _ => rfl, nofun⟩
  | true =>
    have hactive := hl.serves.activeTxn
    have htid := Transaction.tid_forgetAll (List.range' start count) txn
    have hnew := JournalState.activeTxn_setActive hactive (htid.trans (JournalState.activeTxn_tid hactive))
    have hrest := JournalState.setActive_rest j.state ((List.range' start count).foldl Transaction.forgetBlock txn)
    have hmem : ∀ b, b ∈ List.range' start count ↔ b ∈ run start count := fun b => List.mem_range'_1
    have hmarks : ∀ b, ((List.range' start count).foldl Transaction.forgetBlock txn).mark b =
        if b ∈ List.range' start count then some false else txn.mark b := fun b => by
      rw [Transaction.mark, Transaction.event_forgetAll]
      split_ifs <;> rfl
    simp only [dischargeDuty, if_true, Op.Ends, discharge, hl.underHandle, JournalState.discharge, hactive, keepOnError]
    generalize j.state.setActive ((List.range' start count).foldl Transaction.forgetBlock txn) = after at hnew hrest ⊢
    have hserves : ∀ u, ({ after with uncheckpointed := u } : JournalState).activeTxn h.tid = _ := fun _ => hnew
    refine ⟨hl.handle.symm, ?_, fun b hb => ?_, fun _ b hb => ?_⟩
    · simp [pins, resumed, hl.journal, Journal.withState, hrest.2]
    all_goals
      rw [← hmem] at hb
      simp only [marks, resumed, hl.handle, hl.journal, Journal.withState]
      rw [hserves]
      simp [hb, hmarks, hactive, hrest.1]

theorem pinFreedRun_pins (hfresh : ∀ b ∈ run start count, ∀ t, ¬fs.PinnedTo b t) :
    (pinFreedRun start count).Ends fs (fun _ fs' => fs'.handle = fs.handle ∧ (∀ b, fs'.marks b = fs.marks b) ∧
      ∀ b u, fs'.PinnedTo b u ↔ b ∈ run start count ∧ u = t ∨ fs.PinnedTo b u) fun _ _ => False := by
  obtain ⟨h, j, txn, hl, rfl⟩ := hr.tid_live ht
  have hpins : fs.pins = some j.state.pinnedFrees := by rw [pins, hl.journal]; rfl
  simp only [Op.Ends, pinFreedRun, hl.underHandle]
  by_cases hcount : count = 0
  · have hsame : fs.resumed h j j.state = fs := by simp [resumed, ← hl.handle, ← hl.journal, Journal.withState]
    subst hcount
    simp only [JournalState.pinFreedRun, if_true, keepOnError, hsame]
    refine ⟨trivial, fun _ => trivial, fun b u => (or_iff_right fun hb => ?_).symm⟩
    exact absurd hb.1.2 (not_lt.mpr hb.1.1)
  · have hempty : ∀ r, j.state.pinnedFrees.get start = some r → r.count = 0 := fun r hget => by
      by_contra hpos
      exact hfresh start ⟨le_rfl, by omega⟩ r.tid
        ⟨_, hpins, start, r, hget, le_rfl, by omega, rfl⟩
    have hpinned : j.state.pinFreedRun h.tid start count =
        .ok { j.state with pinnedFrees := j.state.pinnedFrees.insert start ⟨count, h.tid⟩ } := by
      rw [JournalState.pinFreedRun, if_neg hcount, hl.serves.activeTxn]
      rcases hget : j.state.pinnedFrees.get start with _ | r
      · simp only [hl.serves.tid]
      · simp only [hl.serves.tid, hempty r hget, Nat.zero_max]
    have hafter : (fs.resumed h j { j.state with pinnedFrees := j.state.pinnedFrees.insert start ⟨count, h.tid⟩ }).pins =
        some (j.state.pinnedFrees.insert start ⟨count, h.tid⟩) := rfl
    simp only [hpinned, keepOnError]
    refine ⟨hl.handle.symm, fun b => ?_, fun b u => ⟨?_, ?_⟩⟩
    · simp only [marks, resumed, hl.handle, hl.journal, Journal.withState]
      rfl
    · rintro ⟨pins, hp, s, r, hget, hlo, hhi, rfl⟩
      obtain rfl := Option.some.inj (hafter.symm.trans hp)
      rw [SortedMap.get_insert] at hget
      split_ifs at hget with hs
      · cases hget
        exact .inl ⟨⟨hs ▸ hlo, hs ▸ hhi⟩, rfl⟩
      · exact .inr ⟨_, hpins, s, r, hget, hlo, hhi, rfl⟩
    · rintro (⟨hb, rfl⟩ | ⟨pins, hp, s, r, hget, hlo, hhi, rfl⟩)
      · exact ⟨_, hafter, start, ⟨count, h.tid⟩, by rw [SortedMap.get_insert, if_pos rfl], hb.1, hb.2, rfl⟩
      · obtain rfl := Option.some.inj (hpins.symm.trans hp)
        refine ⟨_, hafter, s, r, ?_, hlo, hhi, rfl⟩
        rw [SortedMap.get_insert, if_neg, hget]
        rintro rfl
        have := hempty r hget
        omega

end

theorem groupFreeBlocks_tints (hidx : idx < fs.sb.nrBlockGroups) :
    (BlockGroup.freeBlocks g idx startBit count).Ends fs (fun _ fs' => fs.Tints fs.layout.systemBids fs')
      fun _ _ => True := by
  have hmeta := metaBids_subset hidx
  refine .bind_get ?_
  dsimp only
  split
  · exact (Op.Ends.any _ fs).bind fun _ _ _ => .fail trivial
  · refine ((getWriteAccess_tints g (hmeta (BlockGroup.blockBitmapBid_subset _ (Finset.mem_singleton_self _)))).ends
      fs).bindOr (fun _ _ _ => trivial) fun access fs1 h1 => .bind_modify ?_
    split
    · exact .fail trivial
    · refine .bind_modify (Op.Ends.bindOr ((BlockGroup.publish_tints g (hmeta (BlockGroup.descBlockBid_mem _)) _ _).ends
        _) (fun _ _ _ => trivial) fun _ fs2 h2 => .ret (trans_of (Tints _) h1 ?_))
      exact ⟨h2.tid, h2.pins, h2.marks⟩

theorem freeRun_pins (hr : fs.Ready) (ht : fs.handle.map Handle.tid = some t) (hidx : idx < fs.sb.nrBlockGroups)
    (hfresh : ∀ b ∈ run current count, ∀ t, ¬fs.PinnedTo b t) :
    (freeRun g idx startBit current count).Ends fs (fun _ fs' => fs'.handle.map Handle.tid = some t ∧
      (∀ b ∉ fs.layout.systemBids, fs'.marks b = fs.marks b) ∧
      ∀ b u, fs'.PinnedTo b u ↔ b ∈ run current count ∧ u = t ∨ fs.PinnedTo b u) fun _ _ => True := by
  refine ((BlockGroup.freeBlocks_ends hr g idx startBit count).and (groupFreeBlocks_tints hidx)).bindOr
    (fun _ _ _ => trivial) fun freed fs1 h1 => ?_
  obtain ⟨⟨_, -, hev⟩, hgroup⟩ := h1
  have hfresh1 : ∀ b ∈ run current count, ∀ t, ¬fs1.PinnedTo b t := fun b hb u hp =>
    hfresh b hb u ((PinnedTo.congr hgroup.pins).mp hp)
  refine (pinFreedRun_pins hev.ready (hgroup.tid.trans ht) hfresh1).bindOr (fun _ _ hf => hf.elim) fun _ fs2 h2 => ?_
  obtain ⟨hhandle, hmarks, hpinned⟩ := h2
  have hafter : ∀ fs3, fs2.Tints fs.layout.systemBids fs3 → fs3.handle.map Handle.tid = some t ∧
      (∀ b ∉ fs.layout.systemBids, fs3.marks b = fs.marks b) ∧
      ∀ b u, fs3.PinnedTo b u ↔ b ∈ run current count ∧ u = t ∨ fs.PinnedTo b u := fun fs3 h3 => by
    refine ⟨h3.tid.trans (by rw [hhandle, hgroup.tid, ht]), fun b hb => ?_, fun b u => ?_⟩
    · rw [h3.marks b hb, hmarks, hgroup.marks b hb]
    · rw [PinnedTo.congr h3.pins, hpinned, PinnedTo.congr hgroup.pins]
  split
  · exact ((updateSb_tints g (Layout.superblockBid_mem _) _).ends fs2).mono (fun _ fs3 h3 => hafter fs3 h3)
      fun _ _ _ => trivial
  · exact .ret (hafter fs2 (refl_of (Tints _) fs2))

structure Strips (base fs : Fs) (t : Tid) (duty : Bool) (start n : Nat) : Prop where
  layout : fs.layout = base.layout
  ready : fs.Ready
  tid : fs.handle.map Handle.tid = some t
  revoked : duty = true → ∀ b ∈ run start n, b ∉ base.layout.systemBids → fs.marks b = some (some false, false)
  pinned : ∀ b u, fs.PinnedTo b u ↔ b ∈ run start n ∧ u = t ∨ base.PinnedTo b u

theorem freeRuns_strips (hr : fs.Ready) (ht : fs.handle.map Handle.tid = some t) (hw : fs.layout.Wf) {fuel total : Nat}
    (hfuel : total ≤ fuel) (hrun : ∀ b ∈ run start total, fs.layout.Contains b)
    (hfresh : ∀ b ∈ run start total, ∀ t, ¬fs.PinnedTo b t) :
    (freeRuns g duty fuel start total).Ends fs (fun _ fs' => fs.Strips fs' t duty start total) fun _ _ => True := by
  have hnone : ∀ b, b ∉ run start 0 := fun b hb => by
    have := hb.1
    have := hb.2
    omega
  refine freeRuns_rule (I := fun fs' n => fs.Strips fs' t duty start n) hw (fun _ _ h => h.layout)
    (fun fs0 idx startBit n count h0 hle hp => ?_) hrun hfuel (zero_add _)
    ⟨rfl, hr, ht, fun _ b hb => absurd hb (hnone b), fun b u => (or_iff_right fun hb => hnone b hb.1).symm⟩
  have hsplit : ∀ b, b ∈ run start (n + count) ↔ b ∈ run start n ∨ b ∈ run (start + n) count := fun b => by
    simp only [run, Set.mem_setOf_eq]
    omega
  have hw0 : fs0.layout.Wf := h0.layout ▸ hw
  refine ((dischargeDuty_ends h0.ready duty _ count).and (dischargeDuty_marks h0.ready h0.tid duty _ count)).mono
    (fun _ fs1 h1 => ?_) fun _ _ hf => hf.1.elim
  obtain ⟨hmoves, hhandle, hpins, hkept, hforgot⟩ := h1
  have hp1 := hp.congr hmoves.layout
  have hfresh1 : ∀ b ∈ run (start + n) count, ∀ t, ¬fs1.PinnedTo b t := fun b hb u hpin => by
    rw [PinnedTo.congr hpins, h0.pinned] at hpin
    rcases hpin with ⟨hin, -⟩ | hpin
    · have := hin.2
      have := hb.1
      omega
    · exact hfresh b ⟨by have := hb.1; omega, by have := hb.2; omega⟩ u hpin
  refine ((freeRun_ends hmoves.ready (hmoves.layout ▸ hw0) hp1.idx_lt hp1.start hp1.stop_le).and
    (freeRun_pins hmoves.ready (hhandle ▸ h0.tid) hp1.idx_lt hfresh1)).mono (fun _ fs2 h2 => ?_)
    fun _ _ _ => .modify trivial
  obtain ⟨hmoves2, htid2, hmarks2, hpinned2⟩ := h2
  rw [hmoves.layout, h0.layout] at hmarks2
  refine ⟨(hmoves2.layout.trans hmoves.layout).trans h0.layout, hmoves2.ready, htid2, fun hd b hb hsys => ?_, fun b u => ?_⟩
  · rw [hmarks2 b hsys]
    by_cases hin : b ∈ run (start + n) count
    · exact hforgot hd b hin
    · rw [hkept b hin]
      exact h0.revoked hd b (((hsplit b).mp hb).resolve_right hin) hsys
  · rw [hpinned2, PinnedTo.congr hpins, h0.pinned, hsplit]
    tauto

end Fs

end Ext4
