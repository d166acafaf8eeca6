import Ext4.Journal.Walk

namespace Ext4

open RawJournalHeader World Prog

variable {M : Type}

structure IsChainBlock (block : Block) (tid : Tid) (blocktype : Nat) : Prop where
  magic : (RawJournalHeader.parse block).magic = jbd2Magic
  sequence : (RawJournalHeader.parse block).sequence = tid
  blocktype : (RawJournalHeader.parse block).blocktype = blocktype

theorem IsChainBlock.header {block : Block} {tid : Tid} {blocktype : Nat} (hb : IsChainBlock block tid blocktype) :
    parse block = ⟨jbd2Magic, blocktype, tid⟩ := by
  rw [← hb.magic, ← hb.blocktype, ← hb.sequence]

theorem revoke_ne_commit : blocktypeRevoke ≠ blocktypeCommit := by decide
theorem descriptor_ne_revoke : blocktypeDescriptor ≠ blocktypeRevoke := by decide
theorem descriptor_ne_commit : blocktypeDescriptor ≠ blocktypeCommit := by decide

theorem exists_fuel {n fuel : Nat} (hf : n < fuel) : ∃ k, fuel = k + 1 :=
  Nat.exists_eq_succ_of_ne_zero (Nat.ne_zero_of_lt hf)

def TagsOutsideLog (g : JournalGeometry) (d : Disk Block) (tid : Tid) : Prop :=
  ∀ log block, g.logRead d log = .ok block → IsChainBlock block tid blocktypeDescriptor →
    ∀ tag, .ok tag ∈ g.tagLayout.walk block → tag.blocknr ∉ g.blockMap

inductive ChainItem where
  | revoke (block : Block)
  | descriptor (block : Block) (tags : List DescriptorTag)

namespace ChainItem

def block : ChainItem → Block
  | .revoke b => b
  | .descriptor b _ => b

def tags : ChainItem → List DescriptorTag
  | .revoke _ => []
  | .descriptor _ ts => ts

def size (it : ChainItem) : Nat := it.tags.length + 1

end ChainItem

inductive Chain (g : JournalGeometry) (r : Nat → Except Fault Block) (tid : Tid) :
    Nat → List ChainItem → Nat → Prop
  | commit {log block} (hr : r log = .ok block) (hb : IsChainBlock block tid blocktypeCommit) :
      Chain g r tid log [] log
  | revoke {log block items last} (hr : r log = .ok block)
      (hb : IsChainBlock block tid blocktypeRevoke)
      (hrest : Chain g r tid (g.advance log 1) items last) :
      Chain g r tid log (.revoke block :: items) last
  | descriptor {log block tags items last} (hr : r log = .ok block)
      (hb : IsChainBlock block tid blocktypeDescriptor)
      (hw : g.tagLayout.walk block = tags.map .ok)
      (hrest : Chain g r tid (g.advance log (tags.length + 1)) items last) :
      Chain g r tid log (.descriptor block tags :: items) last

def WithinLog (g : JournalGeometry) : List ChainItem → Nat → Prop
  | [], _ => True
  | it :: items, consumed =>
    bump^[it.size] consumed ≤ g.maxlen ∧ WithinLog g items (bump^[it.size] consumed)

variable {items : List ChainItem} {tags : List DescriptorTag} {last : Nat} {r : Nat → Except Fault Block}
variable {g : JournalGeometry} {tid : Tid} {w : World Block M} {log : Nat} {block : Block}
  {revoked : RevokeTable}

theorem withinLog_revoke {consumed : Nat} : WithinLog g (.revoke block :: items) consumed ↔
      bump consumed ≤ g.maxlen ∧ WithinLog g items (bump consumed) := Iff.rfl

theorem withinLog_descriptor {consumed : Nat} :
    WithinLog g (.descriptor block tags :: items) consumed ↔
      bump^[tags.length + 1] consumed ≤ g.maxlen ∧
        WithinLog g items (bump^[tags.length + 1] consumed) := Iff.rfl

def TailsOk (g : JournalGeometry) (items : List ChainItem) : Prop :=
  ∀ it ∈ items, tailOk g it.block = true

theorem bump_iterate_succ (n consumed : Nat) : bump (bump^[n] consumed) = bump^[n + 1] consumed :=
  (Function.iterate_succ_apply' bump n consumed).symm

section Step
variable {fuel consumed : Nat} {ok : Bool}

theorem scan_read_error {e : Fault} (hr : g.logRead w.disk log = .error e) :
    (scanLoop g tid (fuel + 1) ok consumed log).run handle w = (.error e, w) := by
  simp [scanLoop, run_bind, g.run_readLogBlock, hr]

section

variable (hr : g.logRead w.disk log = .ok block)

include hr

theorem scan_foreign (hb : ¬((parse block).magic = jbd2Magic ∧ (parse block).sequence = tid)) :
    (scanLoop g tid (fuel + 1) ok consumed log).run handle w = (.ok none, w) := by
  rw [not_and_or] at hb
  rcases hb with hb | hb <;> simp [scanLoop, run_bind, g.run_readLogBlock, hr, hb]

theorem scan_revoke (hb : IsChainBlock block tid blocktypeRevoke) :
    (scanLoop g tid (fuel + 1) ok consumed log).run handle w =
      if g.maxlen < bump consumed then (.error chainTooLong, w)
      else (scanLoop g tid fuel (ok && tailOk g block) (bump consumed)
        (g.advance log 1)).run handle w := by
  simp only [scanLoop, bind_eq, run_bind, g.run_readLogBlock, hr, hb.header, ne_eq, not_true_eq_false, if_false, if_true]
  split_ifs <;> rfl

theorem scan_commit (hb : IsChainBlock block tid blocktypeCommit) :
    (scanLoop g tid (fuel + 1) ok consumed log).run handle w =
      (if ok = false then
        .error (.error .euclean "journal chain block checksum invalid on a committed transaction")
      else if commitOk g block = false then
        .error (.error .euclean "journal commit block checksum mismatch")
      else .ok (some (g.nextLogBlock log)), w) := by
  simp only [scanLoop, bind_eq, run_bind, g.run_readLogBlock, hr, hb.header, ne_eq, not_true_eq_false,
    if_false, if_true, revoke_ne_commit.symm, descriptor_ne_commit.symm, and_false]
  split_ifs <;> rfl

theorem scan_descriptor (hb : IsChainBlock block tid blocktypeDescriptor) :
    (scanLoop g tid (fuel + 1) ok consumed log).run handle w =
      match scanTags g (g.tagLayout.walk block) log consumed with
      | none => (.ok none, w)
      | some (log, consumed) =>
        if g.maxlen < bump consumed then (.error chainTooLong, w)
        else (scanLoop g tid fuel (ok && tailOk g block) (bump consumed)
          (g.nextLogBlock log)).run handle w := by
  simp only [scanLoop, bind_eq, run_bind, g.run_readLogBlock, hr, hb.header, ne_eq, not_true_eq_false,
    if_false, descriptor_ne_revoke, descriptor_ne_commit, false_and]
  cases scanTags g (g.tagLayout.walk block) log consumed with
  | none => rfl
  | some p =>
    dsimp only
    split_ifs <;> rfl

theorem scan_other (h1 : (parse block).blocktype ≠ blocktypeRevoke)
    (h2 : (parse block).blocktype ≠ blocktypeDescriptor) (h3 : (parse block).blocktype ≠ blocktypeCommit) :
    (scanLoop g tid (fuel + 1) ok consumed log).run handle w = (.ok none, w) := by
  simp only [scanLoop, bind_eq, run_bind, g.run_readLogBlock, hr, h1, h3]
  split_ifs <;> simp_all

end

theorem chain_block_cases (block : Block) (tid : Tid) :
    ¬((parse block).magic = jbd2Magic ∧ (parse block).sequence = tid) ∨
    IsChainBlock block tid blocktypeRevoke ∨ IsChainBlock block tid blocktypeCommit ∨
    IsChainBlock block tid blocktypeDescriptor ∨
    ((parse block).blocktype ≠ blocktypeRevoke ∧ (parse block).blocktype ≠ blocktypeDescriptor ∧
      (parse block).blocktype ≠ blocktypeCommit) := by
  by_cases hh : (parse block).magic = jbd2Magic ∧
      (parse block).sequence = tid
  · right
    by_cases h1 : (parse block).blocktype = blocktypeRevoke
    · exact .inl ⟨hh.1, hh.2, h1⟩
    by_cases h2 : (parse block).blocktype = blocktypeCommit
    · exact .inr (.inl ⟨hh.1, hh.2, h2⟩)
    by_cases h3 : (parse block).blocktype = blocktypeDescriptor
    · exact .inr (.inr (.inl ⟨hh.1, hh.2, h3⟩))
    exact .inr (.inr (.inr ⟨h1, h3, h2⟩))
  · exact .inl hh

end Step

theorem scanTags_ok (g : JournalGeometry) (tags : List DescriptorTag) (log consumed : Nat) :
    scanTags g (tags.map .ok) log consumed =
      some (g.advance log tags.length, bump^[tags.length] consumed) := by
  induction tags generalizing log consumed with
  | nil => rfl
  | cons t ts ih => exact ih _ _

theorem scanTags_some {items : List (Except Fault DescriptorTag)}
    {log consumed : Nat} {p : Nat × Nat} (h : scanTags g items log consumed = some p) :
    ∃ tags : List DescriptorTag, items = tags.map .ok := by
  induction items generalizing log consumed with
  | nil => exact ⟨[], rfl⟩
  | cons t ts ih =>
    cases t with
    | error e => cases h
    | ok t =>
      obtain ⟨tags, rfl⟩ := ih h
      exact ⟨t :: tags, rfl⟩

theorem scan_descriptor_tags
    {fuel consumed : Nat} {ok : Bool} (hr : g.logRead w.disk log = .ok block)
    (hb : IsChainBlock block tid blocktypeDescriptor) (hw : g.tagLayout.walk block = tags.map .ok) :
    (scanLoop g tid (fuel + 1) ok consumed log).run handle w =
      if g.maxlen < bump^[tags.length + 1] consumed then (.error chainTooLong, w)
      else (scanLoop g tid fuel (ok && tailOk g block) (bump^[tags.length + 1] consumed)
        (g.advance log (tags.length + 1))).run handle w := by
  rw [scan_descriptor hr hb, hw, scanTags_ok]
  simp only [bump_iterate_succ, g.advance_succ]

theorem scan_some {w w' : World Block M} {fuel consumed log n : Nat} {ok : Bool}
    (h : (scanLoop g tid fuel ok consumed log).run handle w = (.ok (some n), w')) :
    ∃ items last, Chain g (g.logRead w.disk) tid log items last ∧ n = g.nextLogBlock last ∧
      WithinLog g items consumed ∧ items.length < fuel ∧ ok = true ∧ TailsOk g items := by
  induction fuel generalizing ok consumed log with
  | zero => cases h
  | succ fuel ih =>
    cases hr : g.logRead w.disk log with
    | error e =>
      rw [scan_read_error hr] at h
      cases h
    | ok block =>
      rcases chain_block_cases block tid with hb | hb | hb | hb | hb
      · rw [scan_foreign hr hb] at h
        cases h
      · rw [scan_revoke hr hb] at h
        split_ifs at h with hc
        · cases h
        obtain ⟨items, last, hch, hn, hl, hf, hok, ht⟩ := ih h
        simp only [Bool.and_eq_true] at hok
        refine ⟨.revoke block :: items, last, .revoke hr hb hch, hn, ⟨by simpa [ChainItem.size,
          ChainItem.tags] using hc, hl⟩, by simpa using hf, hok.1, ?_⟩
        intro it hit
        rcases List.mem_cons.mp hit with rfl | hit
        · exact hok.2
        · exact ht it hit
      · rw [scan_commit hr hb] at h
        split_ifs at h with hok
        · cases h
        · cases h
        · simp only [Prod.mk.injEq, Except.ok.injEq, Option.some.injEq] at h
          exact ⟨[], log, .commit hr hb, h.1.symm, trivial, by simp, by simpa using hok,
            by simp [TailsOk]⟩
      · cases hs : scanTags g (g.tagLayout.walk block) log consumed with
        | none =>
          rw [scan_descriptor hr hb, hs] at h
          cases h
        | some p =>
          obtain ⟨tags, hw⟩ := scanTags_some hs
          rw [scan_descriptor_tags hr hb hw] at h
          split_ifs at h with hc
          · cases h
          obtain ⟨items, last, hch, hn, hl, hf, hok, ht⟩ := ih h
          simp only [Bool.and_eq_true] at hok
          refine ⟨.descriptor block tags :: items, last, .descriptor hr hb hw hch, hn,
            ⟨not_lt.mp hc, hl⟩, by simpa using hf, hok.1, ?_⟩
          intro it hit
          rcases List.mem_cons.mp hit with rfl | hit
          · exact hok.2
          · exact ht it hit
      · rw [scan_other hr hb.1 hb.2.1 hb.2.2] at h
        cases h

theorem scan_of_chain
    (hc : Chain g (g.logRead w.disk) tid log items last) {fuel consumed : Nat} (hl : WithinLog g items consumed)
    (hf : items.length < fuel) (ht : TailsOk g items)
    (hcommit : ∀ block, g.logRead w.disk last = .ok block → commitOk g block = true) :
    (scanLoop g tid fuel true consumed log).run handle w =
      (.ok (some (g.nextLogBlock last)), w) := by
  induction hc generalizing fuel consumed with
  | @commit log block hr hb =>
    obtain ⟨fuel, rfl⟩ := exists_fuel hf
    simp [scan_commit hr hb, hcommit block hr]
  | @revoke log block items last hr hb _ ih =>
    obtain ⟨fuel, rfl⟩ := exists_fuel hf
    rw [withinLog_revoke] at hl
    have htail : tailOk g block = true := ht (.revoke block) (by simp)
    rw [scan_revoke hr hb, if_neg (not_lt.mpr hl.1), htail]
    exact ih hl.2 (by simpa using hf) (fun it hit => ht it (by simp [hit])) hcommit
  | @descriptor log block tags items last hr hb hw _ ih =>
    obtain ⟨fuel, rfl⟩ := exists_fuel hf
    rw [withinLog_descriptor] at hl
    have htail : tailOk g block = true := ht (.descriptor block tags) (by simp)
    rw [scan_descriptor_tags hr hb hw, if_neg (not_lt.mpr hl.1), htail]
    exact ih hl.2 (by simpa using hf) (fun it hit => ht it (by simp [hit])) hcommit

def collectItems (g : JournalGeometry) (tid : Tid) :
    List ChainItem → RevokeTable → Except Fault RevokeTable
  | [], table => .ok table
  | .revoke block :: items, table =>
    match g.tagLayout.walkRevoke block with
    | .error e => .error e
    | .ok entries => collectItems g tid items (table.recordAll entries tid)
  | .descriptor _ _ :: items, table => collectItems g tid items table

theorem collectTags_ok (g : JournalGeometry) (tags : List DescriptorTag) (log consumed : Nat) :
    collectTags g (tags.map .ok) log consumed =
      .ok (g.advance log tags.length, bump^[tags.length] consumed) := by
  induction tags generalizing log consumed with
  | nil => rfl
  | cons t ts ih => exact ih _ _

theorem run_collect
    (hc : Chain g (g.logRead w.disk) tid log items last) {fuel consumed : Nat} (hl : WithinLog g items consumed)
    (hf : items.length < fuel) (table : RevokeTable) :
    (collectLoop g tid fuel table consumed log).run handle w =
      ((collectItems g tid items table).map fun t => (g.nextLogBlock last, t), w) := by
  induction hc generalizing fuel consumed table with
  | @commit log block hr hb =>
    obtain ⟨fuel, rfl⟩ := exists_fuel hf
    simp [collectLoop, run_bind, g.run_readLogBlock, hr, hb.header, collectItems, Except.map]
  | @revoke log block items last hr hb _ ih =>
    obtain ⟨fuel, rfl⟩ := exists_fuel hf
    rw [withinLog_revoke] at hl
    have hlen : ¬g.maxlen < bump consumed := not_lt.mpr hl.1
    simp only [collectLoop, bind_eq, run_bind, g.run_readLogBlock, hr, hb.header, ne_eq, not_true_eq_false, if_false, if_true,
      revoke_ne_commit, collectItems]
    cases g.tagLayout.walkRevoke block with
    | error e => rfl
    | ok entries =>
      simp only [hlen, if_false]
      exact ih hl.2 (by simpa using hf) _
  | @descriptor log block tags items last hr hb hw _ ih =>
    obtain ⟨fuel, rfl⟩ := exists_fuel hf
    rw [withinLog_descriptor] at hl
    have hlen : ¬g.maxlen < bump^[tags.length + 1] consumed := not_lt.mpr hl.1
    simp only [collectLoop, bind_eq, run_bind, g.run_readLogBlock, hr, hb.header, ne_eq, not_true_eq_false,
      if_false, if_true, descriptor_ne_commit, descriptor_ne_revoke, hw, collectTags_ok, bump_iterate_succ,
      ← g.advance_succ, hlen, collectItems]
    exact ih hl.2 (by simpa using hf) _

def replayTags (g : JournalGeometry) (r : Nat → Except Fault Block) (size : Nat) (tid : Tid)
    (revoked : RevokeTable) :
    List DescriptorTag → Nat → Bool → Except Fault Bool × List (Nat × Block)
  | [], _, bad => (.ok bad, [])
  | tag :: tags, log, bad =>
    if revoked.suppresses tag.blocknr tid then
      replayTags g r size tid revoked tags (g.nextLogBlock log) bad
    else match r (g.nextLogBlock log) with
      | .error e => (.error e, [])
      | .ok block =>
        if dataOk g tid tag block = false then
          replayTags g r size tid revoked tags (g.nextLogBlock log) true
        else if tag.blocknr < size then
          let rest := replayTags g r size tid revoked tags (g.nextLogBlock log) bad
          (rest.1, (tag.blocknr, loggedImage tag block) :: rest.2)
        else (.error (.error .eio "failed to apply journaled block"), [])

def replayItems (g : JournalGeometry) (r : Nat → Except Fault Block) (size : Nat) (tid : Tid)
    (revoked : RevokeTable) :
    List ChainItem → Nat → Bool → Except Fault Unit × List (Nat × Block)
  | [], _, bad =>
    (if bad then .error (.error .euclean "journal data block checksum mismatch during replay")
      else .ok (), [])
  | it :: items, log, bad =>
    match replayTags g r size tid revoked it.tags log bad with
    | (.error e, ws) => (.error e, ws)
    | (.ok bad, ws) =>
      let rest := replayItems g r size tid revoked items (g.advance log it.size) bad
      (rest.1, ws ++ rest.2)

theorem replayTags_dest {size : Nat} {bad : Bool}
    {x : Nat × Block} (hx : x ∈ (replayTags g r size tid revoked tags log bad).2) :
    x.1 < size ∧ ∃ i, ∃ tag, tags[i]? = some tag ∧ x.1 = tag.blocknr ∧
      revoked.suppresses tag.blocknr tid = false ∧
      ∃ block, r (g.advance log (i + 1)) = .ok block ∧ x.2 = loggedImage tag block := by
  induction tags generalizing log bad with
  | nil => simp [replayTags] at hx
  | cons tag tags ih =>
    have lift : ∀ {bad}, x ∈ (replayTags g r size tid revoked tags (g.nextLogBlock log) bad).2 →
        x.1 < size ∧ ∃ i, ∃ t, (tag :: tags)[i]? = some t ∧ x.1 = t.blocknr ∧
          revoked.suppresses t.blocknr tid = false ∧
          ∃ block, r (g.advance log (i + 1)) = .ok block ∧ x.2 = loggedImage t block := by
      intro bad h
      obtain ⟨hs, i, t, hi, hrest⟩ := ih h
      exact ⟨hs, i + 1, t, by simpa using hi, hrest⟩
    by_cases hsup : revoked.suppresses tag.blocknr tid = true
    · rw [replayTags, if_pos hsup] at hx
      exact lift hx
    · rw [replayTags, if_neg hsup] at hx
      cases hr : r (g.nextLogBlock log) with
      | error e => simp [hr] at hx
      | ok block =>
        simp only [hr] at hx
        by_cases hd : dataOk g tid tag block = false
        · rw [if_pos hd] at hx
          exact lift hx
        · rw [if_neg hd] at hx
          by_cases hsz : tag.blocknr < size
          · rw [if_pos hsz] at hx
            rcases List.mem_cons.mp hx with rfl | hx
            · exact ⟨hsz, 0, tag, rfl, rfl, by simpa using hsup, block, hr, rfl⟩
            · exact lift hx
          · simp [hsz] at hx

theorem run_applyTags (hout : ∀ t ∈ tags, t.blocknr ∉ g.blockMap)
    (log consumed : Nat) (bad : Bool) (w : World Block M) :
    (applyTags g tid revoked (tags.map .ok) log consumed bad).run handle w =
      ((replayTags g (g.logRead w.disk) w.disk.size tid revoked tags log bad).1.map
        fun bad => (g.advance log tags.length, bump^[tags.length] consumed, bad),
       w.issue (replayTags g (g.logRead w.disk) w.disk.size tid revoked tags log bad).2) := by
  induction tags generalizing log consumed bad w with
  | nil => simp [applyTags, replayTags, Except.map, JournalGeometry.advance]
  | cons tag tags ih =>
    have hrest : ∀ t ∈ tags, t.blocknr ∉ g.blockMap := fun t ht => hout t (by simp [ht])
    rw [List.map_cons, applyTags, replayTags]
    by_cases hsup : revoked.suppresses tag.blocknr tid = true
    · rw [if_pos hsup, if_pos hsup]
      exact ih hrest _ _ _ _
    · rw [if_neg hsup, if_neg hsup, bind_eq, run_bind, g.run_readLogBlock]
      cases hr : g.logRead w.disk (g.nextLogBlock log) with
      | error e => simp [Except.map]
      | ok block =>
        dsimp only
        by_cases hd : dataOk g tid tag block = false
        · rw [if_pos hd, if_pos hd]
          exact ih hrest _ _ _ _
        · rw [if_neg hd, if_neg hd, bind_eq, run_bind, run_writeBlock]
          by_cases hsz : tag.blocknr < w.disk.size
          · have hread : g.logRead (w.disk.issue [(tag.blocknr, loggedImage tag block)]) =
                g.logRead w.disk := g.logRead_issue (by simpa using hout tag (by simp))
            rw [if_pos hsz, if_pos hsz]
            dsimp only
            rw [ih hrest, issue_disk, hread]
            simp [JournalGeometry.advance]
          · simp [hsz, Except.map]

theorem logRead_replayed {log size : Nat} {bad : Bool}
    (hw : g.logRead w.disk = r) (hout : ∀ t ∈ tags, t.blocknr ∉ g.blockMap) {ws : List (Nat × Block)}
    (hws : (replayTags g r size tid revoked tags log bad).2 = ws) : g.logRead (w.issue ws).disk = r := by
  subst hws
  rw [issue_disk, g.logRead_issue, hw]
  intro x hx
  obtain ⟨_, i, tag, hi, hb, _⟩ := replayTags_dest hx
  exact hb ▸ hout tag (List.mem_of_getElem? hi)

theorem run_apply (hc : Chain g r tid log items last)
    (hw : g.logRead w.disk = r) {fuel consumed : Nat} (hl : WithinLog g items consumed)
    (hf : items.length < fuel) (ht : TailsOk g items) (hout : ∀ it ∈ items, ∀ t ∈ it.tags, t.blocknr ∉ g.blockMap)
    (revoked : RevokeTable) (bad : Bool) :
    (applyLoop g tid revoked fuel bad consumed log).run handle w =
      ((replayItems g r w.disk.size tid revoked items log bad).1.map fun _ => g.nextLogBlock last,
       w.issue (replayItems g r w.disk.size tid revoked items log bad).2) := by
  induction hc generalizing fuel consumed bad w with
  | @commit log block hr hb =>
    obtain ⟨fuel, rfl⟩ := exists_fuel hf
    rw [← hw] at hr
    cases bad <;>
      simp [applyLoop, run_bind, g.run_readLogBlock, hr, hb.header, replayItems, Except.map]
  | @revoke log block items last hr hb _ ih =>
    obtain ⟨fuel, rfl⟩ := exists_fuel hf
    rw [withinLog_revoke] at hl
    rw [← hw] at hr
    have hlen : ¬g.maxlen < bump consumed := not_lt.mpr hl.1
    simp only [applyLoop, bind_eq, run_bind, g.run_readLogBlock, hr, hb.header, ne_eq, not_true_eq_false,
      if_false, if_true, revoke_ne_commit, hlen, replayItems, replayTags, ChainItem.tags, List.nil_append]
    exact ih hw hl.2 (by simpa using hf) (fun it hit => ht it (by simp [hit]))
      (fun it hit => hout it (by simp [hit])) _
  | @descriptor log block tags items last hr hb hwalk _ ih =>
    obtain ⟨fuel, rfl⟩ := exists_fuel hf
    rw [withinLog_descriptor] at hl
    rw [← hw] at hr
    have htail : tailOk g block = true := ht (.descriptor block tags) (by simp)
    have hlen : ¬g.maxlen < bump^[tags.length + 1] consumed := not_lt.mpr hl.1
    have htags : ∀ t ∈ tags, t.blocknr ∉ g.blockMap := hout (.descriptor block tags) (by simp)
    simp only [applyLoop, bind_eq, run_bind, g.run_readLogBlock, hr, hb.header, ne_eq, not_true_eq_false,
      if_false, descriptor_ne_commit, descriptor_ne_revoke, htail, hwalk, run_applyTags htags, hw,
      replayItems, ChainItem.tags, Bool.true_eq_false]
    cases hrt : replayTags g r w.disk.size tid revoked tags log bad with
    | mk res ws =>
      cases res with
      | error e => rfl
      | ok bad' =>
        have hread := logRead_replayed hw htags (congrArg Prod.snd hrt)
        simp only [Except.map, bump_iterate_succ, hlen, if_false, ← g.advance_succ]
        rw [ih hread hl.2 (by simpa using hf) (fun it hit => ht it (by simp [hit]))
          (fun it hit => hout it (by simp [hit]))]
        simp [Except.map, ChainItem.size, ChainItem.tags]

end Ext4
