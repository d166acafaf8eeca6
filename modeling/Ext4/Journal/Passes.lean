import Ext4.Journal.Codec

namespace Ext4

open List Prog World

variable {M : Type} {g : JournalGeometry} {tid : Tid} {d : Disk Block} {log last fuel consumed size : Nat}
  {items : List ChainItem} {w : World Block M} {α : Type} {o : IoOp Block M} {table revoked : RevokeTable}
  {tags : List DescriptorTag} {bad : Bool} {r : Nat → Except Fault Block} {e : Fault}

def chainPositions (g : JournalGeometry) : List ChainItem → Nat → List Nat
  | [], log => [log]
  | it :: items, log => log :: chainPositions g items (g.advance log it.size)

theorem Chain.tags_outside (hc : Chain g (g.logRead d) tid log items last) (hout : TagsOutsideLog g d tid) :
    ∀ it ∈ items, ∀ t ∈ it.tags, t.blocknr ∉ g.blockMap := by
  induction hc with
  | commit => simp
  | revoke hr hb _ ih =>
    intro it hit
    rcases mem_cons.mp hit with rfl | hit
    · simp [ChainItem.tags]
    · exact ih it hit
  | @descriptor log block tags items last hr hb hw _ ih =>
    intro it hit t ht
    rcases mem_cons.mp hit with rfl | hit
    · exact hout log block hr hb t (by rw [hw]; exact mem_map_of_mem ht)
    · exact ih it hit t ht

theorem logRead_ok {block : Block} (h : g.logRead d log = .ok block) :
    ∃ p, g.logBlockToPhysical log = some p ∧ d.read p = some block := by
  unfold JournalGeometry.logRead at h
  cases hp : g.logBlockToPhysical log with
  | none => simp [hp] at h
  | some p =>
    cases hd : d.read p with
    | none => simp [hp, hd] at h
    | some b =>
      simp only [hp, hd, Except.ok.injEq] at h
      exact ⟨p, rfl, h ▸ hd⟩

theorem read_mem_trace {p : Nat} {f : Block → JournalIo M α} (hp : g.logBlockToPhysical log = some p) :
    IoOp.read p ∈ ((g.readLogBlock log).bind f).trace handle w := by
  rw [mem_trace_bind, g.trace_readLogBlock]
  simp [hp]

theorem mem_trace_readLogBlock {block : Block} {f : Block → JournalIo M α} (hr : g.logRead w.disk log = .ok block) :
    o ∈ ((g.readLogBlock log).bind f).trace handle w ↔
      (∃ p, g.logBlockToPhysical log = some p ∧ o = .read p) ∨
        o ∈ (f block).trace handle w := by
  rw [mem_trace_bind, g.trace_readLogBlock, g.run_readLogBlock, hr]
  cases g.logBlockToPhysical log <;> simp [and_assoc]

section

variable (hc : Chain g (g.logRead w.disk) tid log items last) (hl : WithinLog g items consumed) (hf : items.length < fuel)

include hc hl hf

theorem scan_trace_reads {ok : Bool} {q p : Nat} (hq : q ∈ chainPositions g items log)
    (hp : g.logBlockToPhysical q = some p) :
    IoOp.read p ∈ (scanLoop g tid fuel ok consumed log).trace handle w := by
  induction hc generalizing fuel consumed ok with
  | commit =>
    obtain ⟨fuel, rfl⟩ := exists_fuel hf
    obtain rfl : q = _ := by simpa [chainPositions] using hq
    exact read_mem_trace hp
  | @revoke log block items last hr hb _ ih =>
    obtain ⟨fuel, rfl⟩ := exists_fuel hf
    rw [withinLog_revoke] at hl
    rcases mem_cons.mp hq with rfl | hq
    · exact read_mem_trace hp
    · rw [scanLoop, bind_eq, mem_trace_readLogBlock hr]
      right
      simp only [hb.header, ne_eq, not_true_eq_false, if_false, if_true, not_lt.mpr hl.1]
      exact ih hl.2 (by simpa using hf) hq
  | @descriptor log block tags items last hr hb hw _ ih =>
    obtain ⟨fuel, rfl⟩ := exists_fuel hf
    rw [withinLog_descriptor] at hl
    rcases mem_cons.mp hq with rfl | hq
    · exact read_mem_trace hp
    · rw [scanLoop, bind_eq, mem_trace_readLogBlock hr]
      right
      simp only [hb.header, ne_eq, not_true_eq_false, if_false, descriptor_ne_revoke, descriptor_ne_commit,
        false_and, hw, scanTags_ok, bump_iterate_succ, ← g.advance_succ, not_lt.mpr hl.1]
      exact ih hl.2 (by simpa using hf) hq

theorem collect_trace_reads (ho : o ∈ (collectLoop g tid fuel table consumed log).trace handle w) :
    ∃ q ∈ chainPositions g items log, ∃ p, g.logBlockToPhysical q = some p ∧ o = .read p := by
  induction hc generalizing fuel consumed table with
  | @commit log block hr hb =>
    obtain ⟨fuel, rfl⟩ := exists_fuel hf
    rw [collectLoop, bind_eq, mem_trace_readLogBlock hr] at ho
    simp only [hb.header, ne_eq, not_true_eq_false, if_false, if_true,
      pure_eq, trace_ret, not_mem_nil, or_false] at ho
    exact ⟨log, by simp [chainPositions], ho⟩
  | @revoke log block items last hr hb _ ih =>
    obtain ⟨fuel, rfl⟩ := exists_fuel hf
    rw [withinLog_revoke] at hl
    rw [collectLoop, bind_eq, mem_trace_readLogBlock hr] at ho
    rcases ho with ho | ho
    · exact ⟨log, by simp [chainPositions], ho⟩
    · simp only [hb.header, ne_eq, not_true_eq_false, if_false, if_true,
        revoke_ne_commit, not_lt.mpr hl.1] at ho
      cases hv : g.tagLayout.walkRevoke block with
      | error e => simp [hv] at ho
      | ok entries =>
        rw [hv] at ho
        obtain ⟨q, hq, hrest⟩ := ih hl.2 (by simpa using hf) ho
        exact ⟨q, mem_cons_of_mem _ hq, hrest⟩
  | @descriptor log block tags items last hr hb hw _ ih =>
    obtain ⟨fuel, rfl⟩ := exists_fuel hf
    rw [withinLog_descriptor] at hl
    rw [collectLoop, bind_eq, mem_trace_readLogBlock hr] at ho
    rcases ho with ho | ho
    · exact ⟨log, by simp [chainPositions], ho⟩
    · simp only [hb.header, ne_eq, not_true_eq_false, if_false, if_true, descriptor_ne_commit,
        descriptor_ne_revoke, hw, collectTags_ok,
        bump_iterate_succ, ← g.advance_succ, not_lt.mpr hl.1] at ho
      obtain ⟨q, hq, hrest⟩ := ih hl.2 (by simpa using hf) ho
      exact ⟨q, mem_cons_of_mem _ hq, hrest⟩

end

inductive TagEffect (g : JournalGeometry) (r : Nat → Except Fault Block) (data : Nat)
    (tag : DescriptorTag) : IoOp Block M → Prop
  | read {p} (hp : g.logBlockToPhysical data = some p) : TagEffect g r data tag (.read p)
  | write {block} (hr : r data = .ok block) :
      TagEffect g r data tag (.write tag.blocknr (loggedImage tag block))

theorem applyTags_trace (hout : ∀ t ∈ tags, t.blocknr ∉ g.blockMap)
    (ho : o ∈ (applyTags g tid revoked (tags.map .ok) log consumed bad).trace handle w) :
    ∃ i tag, tags[i]? = some tag ∧
      TagEffect g (g.logRead w.disk) (g.advance log (i + 1)) tag o := by
  induction tags generalizing log consumed bad w with
  | nil => simp [applyTags] at ho
  | cons tag tags ih =>
    have hrest : ∀ t ∈ tags, t.blocknr ∉ g.blockMap := fun t ht => hout t (by simp [ht])
    have lift : ∀ {bad : Bool} {w' : World Block M}, g.logRead w'.disk = g.logRead w.disk →
        o ∈ (applyTags g tid revoked (tags.map .ok) (g.nextLogBlock log) (bump consumed)
          bad).trace handle w' →
        ∃ i t, (tag :: tags)[i]? = some t ∧
          TagEffect g (g.logRead w.disk) (g.advance log (i + 1)) t o := by
      intro bad w' hw' h
      obtain ⟨i, t, hi, he⟩ := ih hrest h
      exact ⟨i + 1, t, by simpa using hi, hw' ▸ he⟩
    rw [map_cons, applyTags] at ho
    by_cases hsup : revoked.suppresses tag.blocknr tid = true
    · rw [if_pos hsup] at ho
      exact lift rfl ho
    · rw [if_neg hsup, bind_eq, mem_trace_bind, g.trace_readLogBlock, g.run_readLogBlock] at ho
      rcases ho with ho | ⟨block, w', hrun, ho⟩
      · simp only [Option.mem_toList, Option.map_eq_some_iff] at ho
        obtain ⟨p, hp, rfl⟩ := ho
        exact ⟨0, tag, rfl, .read hp⟩
      · simp only [Prod.mk.injEq] at hrun
        obtain ⟨hr, rfl⟩ := hrun
        by_cases hd : dataOk g tid tag block = false
        · rw [if_pos hd] at ho
          exact lift rfl ho
        · rw [if_neg hd, bind_eq, mem_trace_bind, run_writeBlock] at ho
          rcases ho with ho | ⟨_, w', hrun, ho⟩
          · obtain rfl : o = .write tag.blocknr (loggedImage tag block) := by
              by_cases hsz : tag.blocknr < w.disk.size <;>
                simpa [writeBlock, Io.write, handle, hsz] using ho
            exact ⟨0, tag, rfl, .write hr⟩
          · have hw' : w' = w.issue [(tag.blocknr, loggedImage tag block)] := by
              by_cases hsz : tag.blocknr < w.disk.size
              · rw [if_pos hsz] at hrun
                exact (Prod.mk.inj hrun).2.symm
              · rw [if_neg hsz] at hrun
                cases hrun
            refine lift ?_ ho
            rw [hw', issue_disk]
            exact g.logRead_issue (by simpa using hout tag (by simp))

theorem apply_trace (hc : Chain g r tid log items last) (hw : g.logRead w.disk = r)
    (hl : WithinLog g items consumed) (hf : items.length < fuel) (ht : TailsOk g items)
    (hout : ∀ it ∈ items, ∀ t ∈ it.tags, t.blocknr ∉ g.blockMap)
    (ho : o ∈ (applyLoop g tid revoked fuel bad consumed log).trace handle w) :
    (∃ q ∈ chainPositions g items log, ∃ p, g.logBlockToPhysical q = some p ∧ o = .read p) ∨
    ∃ q ∈ chainPositions g items log, ∃ block, r q = .ok block ∧
      IsChainBlock block tid blocktypeDescriptor ∧ ∃ i tag,
        (g.tagLayout.walk block)[i]? = some (.ok tag) ∧
        TagEffect g r (g.advance q (i + 1)) tag o := by
  induction hc generalizing fuel consumed bad w with
  | @commit log block hr hb =>
    obtain ⟨fuel, rfl⟩ := exists_fuel hf
    rw [applyLoop, bind_eq, mem_trace_readLogBlock (hw ▸ hr)] at ho
    left
    rcases ho with ho | ho
    · exact ⟨log, by simp [chainPositions], ho⟩
    · cases bad <;> simp [hb.header] at ho
  | @revoke log block items last hr hb _ ih =>
    obtain ⟨fuel, rfl⟩ := exists_fuel hf
    rw [withinLog_revoke] at hl
    rw [applyLoop, bind_eq, mem_trace_readLogBlock (hw ▸ hr)] at ho
    rcases ho with ho | ho
    · exact .inl ⟨log, by simp [chainPositions], ho⟩
    · simp only [hb.header, ne_eq, not_true_eq_false, if_false, if_true,
        revoke_ne_commit, not_lt.mpr hl.1] at ho
      have h := ih hw hl.2 (by simpa using hf) (fun it hit => ht it (by simp [hit]))
        (fun it hit => hout it (by simp [hit])) ho
      exact h.imp (Exists.imp fun q => And.imp_left (mem_cons_of_mem _))
        (Exists.imp fun q => And.imp_left (mem_cons_of_mem _))
  | @descriptor log block tags items last hr hb hwalk _ ih =>
    obtain ⟨fuel, rfl⟩ := exists_fuel hf
    rw [withinLog_descriptor] at hl
    have htail : tailOk g block = true := ht (.descriptor block tags) (by simp)
    have htags : ∀ t ∈ tags, t.blocknr ∉ g.blockMap := hout (.descriptor block tags) (by simp)
    rw [applyLoop, bind_eq, mem_trace_readLogBlock (hw ▸ hr)] at ho
    rcases ho with ho | ho
    · exact .inl ⟨log, by simp [chainPositions], ho⟩
    · simp only [hb.header, ne_eq, not_true_eq_false, if_false, descriptor_ne_commit, descriptor_ne_revoke,
        htail, hwalk, Bool.true_eq_false, bind_eq] at ho
      rw [mem_trace_bind] at ho
      rcases ho with ho | ⟨⟨log', consumed', bad'⟩, w', hrun, ho⟩
      · obtain ⟨i, tag, hi, he⟩ := applyTags_trace htags ho
        exact .inr ⟨log, by simp [chainPositions], block, hr, hb, i, tag, by simp [hwalk, hi],
          hw ▸ he⟩
      · rw [run_applyTags htags, hw] at hrun
        cases hrt : replayTags g r w.disk.size tid revoked tags log bad with
        | mk res ws =>
          rw [hrt] at hrun
          cases res with
          | error e => cases hrun
          | ok b =>
            simp only [Except.map, Prod.mk.injEq, Except.ok.injEq] at hrun
            obtain ⟨⟨rfl, rfl, rfl⟩, rfl⟩ := hrun
            have hread := logRead_replayed hw htags (congrArg Prod.snd hrt)
            simp only [bump_iterate_succ, ← g.advance_succ, not_lt.mpr hl.1, if_false] at ho
            have h := ih hread hl.2 (by simpa using hf) (fun it hit => ht it (by simp [hit]))
              (fun it hit => hout it (by simp [hit])) ho
            exact h.imp (Exists.imp fun q => And.imp_left (mem_cons_of_mem _))
              (Exists.imp fun q => And.imp_left (mem_cons_of_mem _))

theorem Chain.positions_read (hc : Chain g r tid log items last) :
    ∀ q ∈ chainPositions g items log, ∃ block, r q = .ok block := by
  induction hc with
  | @commit log block hr _ => simpa [chainPositions] using ⟨block, hr⟩
  | @revoke log block _ _ hr _ _ ih =>
    intro q hq
    rcases mem_cons.mp hq with rfl | hq
    · exact ⟨block, hr⟩
    · exact ih q hq
  | @descriptor log block _ _ _ hr _ _ _ ih =>
    intro q hq
    rcases mem_cons.mp hq with rfl | hq
    · exact ⟨block, hr⟩
    · exact ih q hq

theorem collectItems_errno (h : collectItems g tid items table = .error e) : ∃ errno msg, e = .error errno msg := by
  induction items generalizing table with
  | nil => cases h
  | cons it items ih =>
    cases it with
    | descriptor b ts => exact ih h
    | revoke b =>
      rw [collectItems, TagLayout.walkRevoke] at h
      split_ifs at h with hl
      · cases h
        exact ⟨_, _, rfl⟩
      · exact ih h

section

variable (hr : ∀ log e, r log = .error e → ∃ errno msg, e = .error errno msg)

include hr

theorem replayTags_errno (h : (replayTags g r size tid revoked tags log bad).1 = .error e) :
    ∃ errno msg, e = .error errno msg := by
  induction tags generalizing log bad with
  | nil => cases h
  | cons tag tags ih =>
    rw [replayTags] at h
    by_cases hsup : revoked.suppresses tag.blocknr tid = true
    · rw [if_pos hsup] at h
      exact ih h
    · rw [if_neg hsup] at h
      cases hb : r (g.nextLogBlock log) with
      | error e' =>
        simp only [hb, Except.error.injEq] at h
        exact hr _ e (h ▸ hb)
      | ok block =>
        simp only [hb] at h
        split_ifs at h
        · exact ih h
        · exact ih h
        · cases h
          exact ⟨_, _, rfl⟩

theorem replayItems_errno (h : (replayItems g r size tid revoked items log bad).1 = .error e) :
    ∃ errno msg, e = .error errno msg := by
  induction items generalizing log bad with
  | nil =>
    cases bad
    · cases h
    · cases h
      exact ⟨_, _, rfl⟩
  | cons it items ih =>
    rw [replayItems] at h
    cases hrt : replayTags g r size tid revoked it.tags log bad with
    | mk res ws =>
      rw [hrt] at h
      cases res with
      | error e' =>
        cases h
        exact replayTags_errno hr (by rw [hrt])
      | ok b => exact ih h

end

theorem logRead_errno (log : Nat) (e : Fault) (h : g.logRead d log = .error e) :
    ∃ errno msg, e = .error errno msg := by
  unfold JournalGeometry.logRead at h
  split at h
  · cases h
    exact ⟨_, _, rfl⟩
  · split at h
    · cases h
      exact ⟨_, _, rfl⟩
    · cases h

def sealedDisk : Disk Block where
  size := 8
  durable := fun b =>
    if b = 1 then putHeader (Bytes.zeros _) blocktypeCommit (Tid.ofNat 5) else Bytes.zeros _
  pending := []

end Ext4
