import Ext4.Journal.LogDevice
import Ext4.Journal.Footprint
import Mathlib.Combinatorics.Pigeonhole

namespace Ext4

open TagLayout List JournalGeometry Tid World JournalSuperblock

variable {tid : Tid} {last log n start : Nat} {items : List ChainItem} {commits : List Nat}
  {w w' : World Block M} {e : Fault} {revoked : RevokeTable} {bad ok : Bool} {l : TagLayout} {b : Block}
  {r : Nat → Except Fault Block}

variable {M : Type} {g : JournalGeometry}

theorem walkFrom_length (l : TagLayout) (b : Block) (fuel off : Nat) :
    (l.walkFrom b fuel off).length * 8 ≤ 4096 - off + 8 := by
  have hbytes := l.tagBytes_bounds
  have harea := l.tagAreaEnd_bounds
  induction fuel generalizing off with
  | zero => exact le_trans (by simp [walkFrom]) zero_le
  | succ fuel ih =>
    rw [walkFrom]
    split_ifs with hoff
    · simp
    · cases l.decodeTag b off with
      | error e => simp
      | ok tag =>
        dsimp only
        split_ifs
        · simp
        · have h := ih (off + l.tagBytes + 0)
          simp only [length_cons]
          omega
        · have h := ih (off + l.tagBytes + tagUuidBytes)
          simp only [length_cons]
          omega

theorem walk_length (l : TagLayout) (b : Block) : (l.walk b).length ≤ 511 := by
  have h := walkFrom_length l b blockSize l.firstTagOffset
  simp only [firstTagOffset, journalHeaderSize] at h
  unfold walk
  simp only [firstTagOffset, journalHeaderSize]
  omega

def LogReads (g : JournalGeometry) (o : IoOp Block M) : Prop := ∀ p, o = .read p → p ∈ g.blockMap

def Fault.Reported (e : Fault) : Prop := e ≠ .spin

def Reports {α : Type} (g : JournalGeometry) (p : JournalIo M α) : Prop :=
  p.Forall (LogReads g) Fault.Reported fun _ => True

theorem chainTooLong_reported : chainTooLong.Reported := nofun
theorem chainBadMagic_reported : chainBadMagic.Reported := nofun
theorem chainBadTid_reported : chainBadTid.Reported := nofun

theorem readLogBlock_forall (g : JournalGeometry) (log : Nat) :
    Reports g (g.readLogBlock log : JournalIo M Block) := by
  unfold readLogBlock
  cases hp : g.logBlockToPhysical log with
  | none => exact nofun
  | some p =>
    refine ⟨?_, fun r => ?_⟩
    · rintro q ⟨⟩
      exact mem_of_getElem? hp
    · cases r with
      | none => exact nofun
      | some block => trivial

theorem writeBlock_forall (b : Nat) (v : Block) (msg : String) :
    Reports g (writeBlock b v msg : JournalIo M Unit) := by
  refine ⟨nofun, fun r => ?_⟩
  cases r with
  | false => exact nofun
  | true => trivial

theorem bump_of_lt {c : Nat} (h : c + 1 < 2 ^ 32) : bump c = c + 1 := Nat.mod_eq_of_lt h

theorem extend_forall {α : Type} {c : Nat} {p : JournalIo M α} (hc : c + 1 < 2 ^ 32)
    (h : bump c = c + 1 → ¬g.maxlen < bump c → Reports g p) :
    Reports g (if g.maxlen < bump c then .fail chainTooLong else p) :=
  .ite (fun _ => chainTooLong_reported) (h (bump_of_lt hc))

section Tags
variable {items : List (Except Fault DescriptorTag)} {log consumed : Nat} {p : Nat × Nat}

theorem scanTags_consumed (h : scanTags g items log consumed = some p)
    (hc : consumed + items.length < 2 ^ 32) : p.2 = consumed + items.length := by
  obtain ⟨tags, rfl⟩ := scanTags_some h
  rw [scanTags_ok] at h
  cases h
  rw [length_map] at hc ⊢
  exact bump_iterate hc

theorem collectTags_consumed (h : collectTags g items log consumed = .ok p)
    (hc : consumed + items.length < 2 ^ 32) : p.2 = consumed + items.length := by
  induction items generalizing log consumed with
  | nil => cases h; rfl
  | cons t items ih =>
    cases t with
    | error e => cases h
    | ok t =>
      simp only [length_cons] at hc ⊢
      rw [collectTags, bump_of_lt (by omega)] at h
      rw [ih h (by omega)]
      omega

theorem collectTags_reported (hi : ∀ e, .error e ∈ items → e.Reported)
    (h : collectTags g items log consumed = .error e) : e.Reported := by
  induction items generalizing log consumed with
  | nil => cases h
  | cons t items ih =>
    cases t with
    | error e' => cases h; exact hi _ (by simp)
    | ok t => exact ih (fun e he => hi e (by simp [he])) h

theorem applyTags_forall (hi : ∀ e, .error e ∈ items → e.Reported) (hc : consumed + items.length < 2 ^ 32) :
    (applyTags g tid revoked items log consumed bad : JournalIo M _).Forall (LogReads g)
      Fault.Reported fun p => p.2.1 = consumed + items.length := by
  induction items generalizing log consumed bad with
  | nil => rfl
  | cons t items ih =>
    cases t with
    | error e => exact hi e (by simp)
    | ok tag =>
      have hrest : ∀ e, .error e ∈ items → e.Reported := fun e he => hi e (by simp [he])
      simp only [length_cons] at hc ⊢
      have hrec : ∀ bad, (applyTags g tid revoked items (g.nextLogBlock log) (bump consumed) bad :
          JournalIo M _).Forall (LogReads g) Fault.Reported
            fun p => p.2.1 = consumed + (items.length + 1) := by
        intro bad
        rw [bump_of_lt (by omega)]
        exact (ih hrest (by omega)).mono (fun _ h => h) fun p hp => by omega
      rw [applyTags]
      split_ifs
      · exact hrec bad
      · refine (readLogBlock_forall g _).bind fun block _ => ?_
        split_ifs
        · exact hrec true
        · exact (writeBlock_forall _ _ _).bind fun _ _ => hrec bad

end Tags

theorem decodeTag_reported {off : Nat} (h : l.decodeTag b off = .error e) : e.Reported := by
  unfold decodeTag at h
  dsimp only at h
  split at h
  · split at h
    · cases h
      exact nofun
    · cases h
  · cases h

theorem walkRevoke_reported (h : l.walkRevoke b = .error e) : e.Reported := by
  unfold walkRevoke at h
  dsimp only at h
  split at h
  · cases h
    exact nofun
  · cases h

theorem walk_reported (l : TagLayout) (b : Block) : ∀ e, .error e ∈ l.walk b → e.Reported := by
  have hfrom : ∀ fuel off e, .error e ∈ l.walkFrom b fuel off → e.Reported := by
    intro fuel
    induction fuel with
    | zero => intro off e h; cases h
    | succ fuel ih =>
      intro off e h
      rw [walkFrom] at h
      split_ifs at h
      · obtain ⟨⟩ := mem_singleton.mp h
        intro hspin
        cases hspin
      · cases hd : l.decodeTag b off with
        | error e' =>
          simp only [hd, mem_singleton, Except.error.injEq] at h
          exact h ▸ decodeTag_reported hd
        | ok tag =>
          simp only [hd, mem_cons, reduceCtorEq, false_or] at h
          split at h
          · cases h
          · exact ih _ e h
  exact hfrom _ _

section Loops
variable {tid : Tid} {fuel consumed log : Nat} (hg : g.maxlen + 512 < 2 ^ 32)
  (hc : consumed ≤ g.maxlen) (hf : g.maxlen < fuel + consumed)
include hg hc hf

theorem scanLoop_forall :
    Reports g (scanLoop g tid fuel ok consumed log : JournalIo M _) := by
  induction fuel generalizing ok consumed log with
  | zero => omega
  | succ fuel ih =>
    have hstep : ∀ c ok log, consumed < c → ¬g.maxlen < c →
        Reports g (scanLoop g tid fuel ok c log : JournalIo M _) := fun c ok log h1 h2 => ih (not_lt.mp h2) (by omega)
    refine (readLogBlock_forall g log).bind fun block _ => ?_
    have hlen := walk_length g.tagLayout block
    refine .ite (fun _ => trivial) fun _ => .ite (fun _ => trivial) fun _ => ?_
    refine .ite (fun _ => ?_) fun _ => .ite (fun _ => trivial) fun _ => ?_
    · exact extend_forall (by omega) fun _ h => hstep _ _ _ (by omega) h
    · refine .ite (fun _ => .ite (fun _ => nofun) fun _ => .ite (fun _ => nofun) fun _ => trivial)
        fun _ => ?_
      cases hs : scanTags g (g.tagLayout.walk block) log consumed with
      | none => trivial
      | some p =>
        have hp := scanTags_consumed hs (by omega)
        exact extend_forall (by omega) fun _ h => hstep _ _ _ (by omega) h

theorem collectLoop_forall {table : RevokeTable} :
    Reports g (collectLoop g tid fuel table consumed log : JournalIo M _) := by
  induction fuel generalizing table consumed log with
  | zero => omega
  | succ fuel ih =>
    have hstep : ∀ c table log, consumed < c → ¬g.maxlen < c →
        Reports g (collectLoop g tid fuel table c log : JournalIo M _) := fun c table log h1 h2 => ih (not_lt.mp h2) (by omega)
    refine (readLogBlock_forall g log).bind fun block _ => ?_
    have hlen := walk_length g.tagLayout block
    refine .ite (fun _ => chainBadMagic_reported) fun _ =>
      .ite (fun _ => chainBadTid_reported) fun _ => .ite (fun _ => trivial) fun _ => ?_
    refine .ite (fun _ => ?_) fun _ => .ite (fun _ => ?_) fun _ => nofun
    · cases hw : g.tagLayout.walkRevoke block with
      | error e => exact walkRevoke_reported hw
      | ok entries =>
        exact extend_forall (by omega) fun _ h => hstep _ _ _ (by omega) h
    · cases hs : collectTags g (g.tagLayout.walk block) log consumed with
      | error e => exact collectTags_reported (walk_reported _ _) hs
      | ok p =>
        have hp := collectTags_consumed hs (by omega)
        exact extend_forall (by omega) fun _ h => hstep _ _ _ (by omega) h

theorem applyLoop_forall :
    Reports g (applyLoop g tid revoked fuel bad consumed log : JournalIo M _) := by
  induction fuel generalizing bad consumed log with
  | zero => omega
  | succ fuel ih =>
    have hstep : ∀ c bad log, consumed < c → ¬g.maxlen < c →
        Reports g (applyLoop g tid revoked fuel bad c log : JournalIo M _) := fun c bad log h1 h2 => ih (not_lt.mp h2) (by omega)
    refine (readLogBlock_forall g log).bind fun block _ => ?_
    have hlen := walk_length g.tagLayout block
    refine .ite (fun _ => chainBadMagic_reported) fun _ =>
      .ite (fun _ => chainBadTid_reported) fun _ =>
      .ite (fun _ => .ite (fun _ => nofun) fun _ => trivial) fun _ => .ite (fun _ => ?_) fun _ =>
      .ite (fun _ => nofun) fun _ => .ite (fun _ => nofun) fun _ => ?_
    · exact extend_forall (by omega) fun _ h => hstep _ _ _ (by omega) h
    · refine (applyTags_forall (walk_reported _ _) (by omega)).bind fun p hp => ?_
      obtain ⟨log', c, bad'⟩ := p
      dsimp only at hp ⊢
      exact extend_forall (by omega) fun _ h => hstep _ _ _ (by omega) h

end Loops

def Cursor (g : JournalGeometry) (start pos : Nat) : Prop := pos = start ∨ 1 ≤ pos ∧ pos < g.maxlen

theorem Cursor.next {pos : Nat} : Cursor g start (g.nextLogBlock pos) := by
  have h1 := g.first_pos
  have h2 := g.first_lt
  unfold nextLogBlock
  right
  split_ifs <;> omega

theorem Cursor.advance {pos : Nat} (h : Cursor g start pos) :
    Cursor g start (g.advance pos n) := by
  cases n with
  | zero => exact h
  | succ n =>
    rw [g.advance_succ]
    exact .next

theorem Chain.cursor (hc : Chain g r tid log items last) (h : Cursor g start log) :
    Cursor g start last := by
  induction hc with
  | commit => exact h
  | revoke _ _ _ ih => exact ih h.advance
  | descriptor _ _ _ _ ih => exact ih h.advance

theorem Chain.commit_read (hc : Chain g r tid log items last) :
    ∃ block, r last = .ok block ∧ IsChainBlock block tid blocktypeCommit := by
  induction hc with
  | commit hr hb => exact ⟨_, hr, hb⟩
  | revoke _ _ _ ih => exact ih
  | descriptor _ _ _ _ ih => exact ih

structure Sealed (g : JournalGeometry) (r : Nat → Except Fault Block) (start : Nat) (tid : Tid)
    (commits : List Nat) : Prop where
  cursor : ∀ q ∈ commits, Cursor g start q
  sequence : ∀ i q, commits[i]? = some q → ∃ block, r q = .ok block ∧
    (RawJournalHeader.parse block).sequence = tid.add i

section

variable (h : Sealed g r start tid commits)

include h

theorem Sealed.concat (hlog : Cursor g start log) (hc : Chain g r (tid.add commits.length) log items last) :
    Sealed g r start tid (commits ++ [last]) := by
  refine ⟨fun q hq => ?_, fun i q hi => ?_⟩
  · rcases mem_append.mp hq with hq | hq
    · exact h.cursor q hq
    · exact mem_singleton.mp hq ▸ hc.cursor hlog
  · rcases Nat.lt_trichotomy i commits.length with hlt | rfl | hlt
    · rw [getElem?_append_left hlt] at hi
      exact h.sequence i q hi
    · obtain rfl : last = q := by simpa using hi
      obtain ⟨block, hr, hb⟩ := hc.commit_read
      exact ⟨block, hr, hb.sequence⟩
    · rw [getElem?_eq_none (by simp; omega)] at hi
      cases hi

theorem Sealed.injective {i j q : Nat} (hi : i < 2 ^ 32) (hj : j < 2 ^ 32)
    (hqi : commits[i]? = some q) (hqj : commits[j]? = some q) : i = j := by
  obtain ⟨b1, hr1, hs1⟩ := h.sequence i q hqi
  obtain ⟨b2, hr2, hs2⟩ := h.sequence j q hqj
  obtain rfl : b1 = b2 := Except.ok.inj (hr1.symm.trans hr2)
  exact add_inj hi hj (hs1.symm.trans hs2)

theorem Sealed.length_le (hstart : start ≠ 0) :
    commits.length ≤ g.maxlen := by
  by_contra hlong
  have hpos := pos_of_ne_zero hstart
  have hmax := g.maxlen_lt
  have hget : ∀ i ∈ Finset.range (g.maxlen + 1), ∃ q, commits[i]? = some q := fun i hi =>
    ⟨_, getElem?_eq_getElem (by simp only [Finset.mem_range] at hi; omega)⟩
  choose! f hf using hget
  let slot : Nat → Nat := fun i => if f i < g.maxlen then f i else 0
  have hmaps : ∀ i ∈ Finset.range (g.maxlen + 1), slot i ∈ Finset.range g.maxlen := by
    intro i _
    have := g.maxlen_pos
    simp only [slot, Finset.mem_range]
    split_ifs <;> omega
  obtain ⟨i, hi, j, hj, hne, he⟩ := Finset.exists_ne_map_eq_of_card_lt_of_maps_to
    (by simp : (Finset.range g.maxlen).card < (Finset.range (g.maxlen + 1)).card) hmaps
  have hci := h.cursor _ (mem_of_getElem? (hf i hi))
  have hcj := h.cursor _ (mem_of_getElem? (hf j hj))
  have hq : f i = f j := by
    simp only [slot] at he
    unfold Cursor at hci hcj
    split_ifs at he <;> omega
  have hfj := hf j hj
  rw [← hq] at hfj
  simp only [Finset.mem_range] at hi hj
  exact hne (h.injective (by omega) (by omega) (hf i (by simpa using hi)) hfj)

end

section Passes
variable {fuel : Nat} (hg : g.maxlen + 512 < 2 ^ 32) (hf : g.maxlen < fuel) {res : Except Fault (Tid × Nat)}
include hg hf

theorem scanTransaction_forall (log : Nat) (tid : Tid) :
    Reports g (scanTransaction g fuel log tid : JournalIo M _) :=
  scanLoop_forall hg zero_le hf

theorem scanPass_forall (n log : Nat) (tid : Tid) (count : Nat) :
    (scanPass g fuel n log tid count : JournalIo M _).Forall (LogReads g) (fun _ => True)
      fun _ => True := by
  induction n generalizing log tid count with
  | zero => trivial
  | succ n ih =>
    have hscan := (scanTransaction_forall (M := M) hg hf log tid).mono
      (fun _ _ => trivial) fun _ h => h
    refine hscan.bind fun r _ => ?_
    cases r with
    | none => trivial
    | some next => exact ih _ _ _

theorem revokePass_forall (count log : Nat) (tid : Tid) (table : RevokeTable) :
    Reports g (revokePass g fuel count log tid table : JournalIo M _) := by
  induction count generalizing log tid table with
  | zero => trivial
  | succ count ih =>
    refine (collectLoop_forall hg zero_le hf).bind fun p _ => ?_
    exact ih _ _ _

theorem replayPass_forall (revoked : RevokeTable) (count log : Nat) (tid : Tid) :
    Reports g (replayPass g fuel revoked count log tid : JournalIo M _) := by
  induction count generalizing log tid with
  | zero => trivial
  | succ count ih =>
    refine (applyLoop_forall hg zero_le hf).bind fun p _ => ?_
    exact ih _ _

omit hg hf in
theorem barrier_forall : Reports g (barrier : JournalIo M Unit) := by
  refine ⟨nofun, fun r => ?_⟩
  cases r with
  | false => exact nofun
  | true => trivial

omit hg hf in
theorem readRawSuperblock_forall : Reports g (g.readRawSuperblock : JournalIo M _) := by
  unfold readRawSuperblock superblockOffset
  cases hp : g.logBlockToPhysical 0 with
  | none => exact nofun
  | some p =>
    refine ⟨?_, fun r => ?_⟩
    · rintro q ⟨⟩
      exact mem_of_getElem? hp
    · cases r with
      | none => exact nofun
      | some block => trivial

omit hg hf in
theorem writeSuperblock_forall (raw : RawJournalSuperblock) :
    Reports g (g.writeSuperblock raw : JournalIo M _) := by
  unfold writeSuperblock superblockOffset
  cases g.logBlockToPhysical 0 with
  | none => exact nofun
  | some p =>
    refine ⟨nofun, fun r => ?_⟩
    cases r with
    | false => exact nofun
    | true => exact barrier_forall

omit hg hf in
theorem scanTransaction_world (log : Nat) (tid : Tid) (w : World Block M) :
    ((scanTransaction g fuel log tid).run handle w).2 = w :=
  Prog.run_of_reads scanLoop_reads w

theorem scanPass_spec (hstart : start ≠ 0) (hs : Sealed g (g.logRead w.disk) start tid commits)
    (hlog : Cursor g start log) (hn : g.maxlen < n + commits.length)
    (hr : (scanPass g fuel n log (tid.add commits.length) commits.length).run handle w = (res, w')) :
    w' = w ∧ (∀ e, res = .error e → e.Reported) ∧
      ∀ p, res = .ok p → p.2 ≤ g.maxlen ∧ p.1 = tid.add p.2 := by
  induction n generalizing commits log with
  | zero =>
    have := hs.length_le hstart
    omega
  | succ n ih =>
    rw [scanPass, Prog.bind_eq, Prog.run_bind] at hr
    have hsame := @scanTransaction_world M g fuel log (tid.add commits.length) w
    cases hscan : (scanTransaction g fuel log (tid.add commits.length)).run handle w with
    | mk r w1 =>
      rw [hscan] at hr hsame
      obtain rfl : w1 = w := hsame
      cases r with
      | error e =>
        cases hr
        refine ⟨rfl, ?_, nofun⟩
        rintro _ ⟨⟩
        exact (scanTransaction_forall hg hf _ _).run_error hscan
      | ok r =>
        cases r with
        | none =>
          cases hr
          refine ⟨rfl, nofun, ?_⟩
          rintro _ ⟨⟩
          exact ⟨hs.length_le hstart, rfl⟩
        | some next =>
          obtain ⟨items, last, hc, rfl, -⟩ := scan_some hscan
          have hs' := hs.concat hlog hc
          refine @ih (g.nextLogBlock last) _ hs' .next (by simp; omega) ?_
          rw [length_append, length_singleton, add_succ]
          exact hr

theorem scanPass_from_start (hstart : start ≠ 0)
    (hr : (scanPass g fuel fuel start tid 0).run handle w = (res, w')) :
    w' = w ∧ (∀ e, res = .error e → e.Reported) ∧
      ∀ p, res = .ok p → p.2 ≤ g.maxlen ∧ p.1 = tid.add p.2 := by
  have hempty : Sealed g (g.logRead w.disk) start tid [] := ⟨nofun, nofun⟩
  rw [← tid.add_zero] at hr
  exact scanPass_spec hg hf hstart hempty (.inl rfl) hf hr

theorem recover_reported (w : World Block Journal) {w' : World Block Journal}
    (hr : (recover g fuel).run handle w = (.error e, w')) : e.Reported := by
  rw [recover, Prog.bind_eq, Prog.run_bind] at hr
  cases hraw : g.readRawSuperblock.run handle w with
  | mk r w1 =>
    rw [hraw] at hr
    cases r with
    | error e' =>
      cases hr
      exact readRawSuperblock_forall.run_error hraw
    | ok raw =>
      dsimp only at hr
      cases hstart : raw.recoveryStart with
      | none => simp [hstart] at hr
      | some start =>
        rw [hstart] at hr
        dsimp only at hr
        rw [Prog.bind_eq, Prog.run_bind] at hr
        have hne : start ≠ 0 := by
          unfold RawJournalSuperblock.recoveryStart at hstart
          split_ifs at hstart with h
          cases hstart
          exact h
        cases hscan : (scanPass g fuel fuel start (ofNat raw.sSequence) 0).run handle w1 with
        | mk r2 w2 =>
          rw [hscan] at hr
          cases r2 with
          | error e' =>
            cases hr
            exact (scanPass_from_start hg hf hne hscan).2.1 _ rfl
          | ok p =>
            refine Prog.Forall.run_error (P := LogReads g) (Q := fun _ => True) ?_ hr
            refine (revokePass_forall hg hf _ _ _ _).bind fun table _ => ?_
            refine (replayPass_forall hg hf _ _ _ _).bind fun _ _ => barrier_forall.bind fun _ _ => ?_
            refine (writeSuperblock_forall _).bind fun _ _ => ?_
            exact ⟨nofun, fun _ => ⟨nofun, fun _ => trivial⟩⟩

theorem recover_reads : (recover g fuel).Forall (LogReads g) (fun _ => True) fun _ => True := by
  have weak {α : Type} {p : JournalIo Journal α} (h : Reports g p) : p.Forall (LogReads g) (fun _ => True) fun _ => True :=
    h.mono (fun _ _ => trivial) fun _ h => h
  refine (weak readRawSuperblock_forall).bind fun raw _ => ?_
  cases raw.recoveryStart with
  | none => trivial
  | some start =>
    refine (scanPass_forall hg hf _ _ _ _).bind fun p _ => ?_
    refine (weak (revokePass_forall hg hf _ _ _ _)).bind fun table _ => ?_
    refine (weak (replayPass_forall hg hf _ _ _ _)).bind fun _ _ => ?_
    refine (weak barrier_forall).bind fun _ _ => (weak (writeSuperblock_forall _)).bind fun _ _ => ?_
    exact ⟨nofun, fun _ => ⟨nofun, fun _ => trivial⟩⟩

end Passes

def scanConsumed (g : JournalGeometry) (tid : Tid) (r : Nat → Except Fault Block) :
    Nat → Nat → Nat → Nat
  | 0, consumed, _ => consumed
  | fuel + 1, consumed, log =>
    match r log with
    | .error _ => consumed
    | .ok block =>
      let header := RawJournalHeader.parse block
      if ¬(header.magic = jbd2Magic ∧ header.sequence = tid) then consumed
      else if header.blocktype = blocktypeRevoke then
        if g.maxlen < consumed + 1 then consumed + 1
        else scanConsumed g tid r fuel (consumed + 1) (g.nextLogBlock log)
      else if header.blocktype = blocktypeDescriptor then
        match scanTags g (g.tagLayout.walk block) log consumed with
        | none => consumed + (g.tagLayout.walk block).length
        | some p =>
          if g.maxlen < p.2 + 1 then p.2 + 1
          else scanConsumed g tid r fuel (p.2 + 1) (g.nextLogBlock p.1)
      else consumed

section Consumed
variable (hg : g.maxlen + 512 < 2 ^ 32) {tid : Tid} {fuel consumed log : Nat}
include hg

theorem scanConsumed_le (hc : consumed ≤ g.maxlen) :
    scanConsumed g tid r fuel consumed log ≤ g.maxlen + 512 := by
  induction fuel generalizing consumed log with
  | zero => exact le_trans hc (Nat.le_add_right _ _)
  | succ fuel ih =>
    rw [scanConsumed]
    cases r log with
    | error e => exact le_trans hc (Nat.le_add_right _ _)
    | ok block =>
      have hlen := walk_length g.tagLayout block
      dsimp only
      split
      · omega
      split
      · split
        · omega
        · exact ih (not_lt.mp ‹_›)
      split
      · cases hs : scanTags g (g.tagLayout.walk block) log consumed with
        | none => dsimp only; omega
        | some p =>
          have hp := scanTags_consumed hs (by omega)
          dsimp only
          split
          · omega
          · exact ih (not_lt.mp ‹_›)
      · omega

theorem scan_some_consumed (hc : consumed ≤ g.maxlen)
    (h : (scanLoop g tid fuel ok consumed log).run handle w = (.ok (some n), w')) :
    ∃ k, n = g.advance log (k + 1) ∧
      scanConsumed g tid (g.logRead w.disk) fuel consumed log = consumed + k := by
  induction fuel generalizing ok consumed log with
  | zero => cases h
  | succ fuel ih =>
    rw [scanConsumed]
    cases hr : g.logRead w.disk log with
    | error e =>
      rw [scan_read_error hr] at h
      cases h
    | ok block =>
      have hlen := walk_length g.tagLayout block
      rcases chain_block_cases block tid with hb | hb | hb | hb | hb
      · rw [scan_foreign hr hb] at h
        cases h
      · rw [scan_revoke hr hb, bump_of_lt (by omega)] at h
        simp only [hb.header, and_self, not_true_eq_false, if_false, if_true]
        split_ifs at h with hl
        · cases h
        obtain ⟨k, hn, hk⟩ := ih (not_lt.mp hl) h
        refine ⟨k + 1, hn, ?_⟩
        rw [if_neg hl]
        exact hk.trans (by omega)
      · rw [scan_commit hr hb] at h
        split_ifs at h
        · cases h
        · cases h
        · cases h
          refine ⟨0, rfl, ?_⟩
          simp [hb.header, revoke_ne_commit.symm, descriptor_ne_commit.symm]
      · simp only [hb.header, and_self, not_true_eq_false, if_false, descriptor_ne_revoke, if_true]
        cases hs : scanTags g (g.tagLayout.walk block) log consumed with
        | none =>
          rw [scan_descriptor hr hb, hs] at h
          cases h
        | some p =>
          have hp := scanTags_consumed hs (by omega)
          obtain ⟨tags, hw⟩ := scanTags_some hs
          have hpos : p.1 = g.advance log tags.length := by
            rw [hw, scanTags_ok] at hs
            exact (congrArg Prod.fst (Option.some.inj hs)).symm
          rw [hw, length_map] at hp
          rw [scan_descriptor hr hb, hs] at h
          dsimp only at h ⊢
          rw [bump_of_lt (by rw [hw, length_map] at hlen; omega)] at h
          split_ifs at h with hl
          · cases h
          obtain ⟨k, hn, hk⟩ := ih (not_lt.mp hl) h
          refine ⟨tags.length + 1 + k, ?_, ?_⟩
          · rw [hn, hpos, ← g.advance_succ, ← g.advance_add]
            congr 1
          · rw [if_neg hl, hk, hp]
            omega
      · rw [scan_other hr hb.1 hb.2.1 hb.2.2] at h
        cases h

end Consumed

namespace Widest

def superBlock : Block :=
  Bytes.putBE (Bytes.putBE (Bytes.putBE (Bytes.putBE (Bytes.putBE (Bytes.putBE (Bytes.putBE
    (Bytes.zeros _) 0 4 jbd2Magic) 4 4 blocktypeSuperblockV2) 12 4 blockSize) 16 4 4294967295)
    20 4 1) 24 4 1) 28 4 1

@[irreducible] def blockMap (n : Nat) : List Nat := List.range n

theorem blockMap_length (n : Nat) : (blockMap n).length = n := by
  unfold blockMap
  exact length_range

theorem blockMap_getElem (h : log < n) : (blockMap n)[log]? = some log := by
  unfold blockMap
  exact getElem?_range h

theorem unsealed : (none : Option JournalCsumSeed).isSome = small.superblock.tagLayout.hasCsum := rfl

def geometry : JournalGeometry where
  blockMap := blockMap 4294967295
  superblock := {
    maxlen := 4294967295
    first := 1
    sequence := Tid.ofNat 1
    start := some 1
    errno := 0
    blocksize := blockSize
    tagLayout := JournalGeometry.small.superblock.tagLayout
    csumSeed := none
    maxlen_lt := by decide
    first_pos := Nat.one_pos
    first_lt := by decide
    seed_iff := unsealed }
  maxlen_le := Nat.le_of_eq (blockMap_length _).symm
  map_lt := Nat.lt_of_le_of_lt (Nat.le_of_eq (blockMap_length _)) (by decide)

def revokeBlock : Block := putHeader (Bytes.zeros _) blocktypeRevoke (Tid.ofNat 1)

def world : World Block Journal where
  disk := ⟨4294967296, fun b => if b = 0 then superBlock else revokeBlock, []⟩
  mem := Journal.new geometry (Tid.ofNat 1) (some 1) 0

theorem accepted : ∃ sb, tryFrom (rawOfBlock superBlock) = .ok sb ∧
    (sb.maxlen, sb.first, sb.sequence, sb.start) = (4294967295, 1, ofNat 1, some 1) := by
  have hcheck : (match tryFrom (rawOfBlock superBlock) with
      | .ok sb => decide ((sb.maxlen, sb.first, sb.sequence, sb.start) = (4294967295, 1, ofNat 1, some 1))
      | .error _ => false) = true := by decide +kernel
  cases hsb : tryFrom (rawOfBlock superBlock) with
  | error e =>
    rw [hsb] at hcheck
    cases hcheck
  | ok sb =>
    rw [hsb] at hcheck
    exact ⟨sb, rfl, of_decide_eq_true hcheck⟩

theorem logBlockToPhysical_eq (h : log < 4294967295) :
    geometry.logBlockToPhysical log = some log :=
  blockMap_getElem h

theorem recoveryStart_superBlock :
    (rawOfBlock superBlock).recoveryStart = some 1 := by decide +kernel

theorem sequence_superBlock :
    ofNat (rawOfBlock superBlock).sSequence = ofNat 1 := by decide +kernel

theorem logRead_ring (h : geometry.InRing log) :
    geometry.logRead world.disk log = .ok revokeBlock := by
  have hring : log < 4294967295 := h.2
  have hne : log ≠ 0 := ne_of_gt h.1
  have hlt : log < 4294967296 := lt_trans hring (by decide)
  refine geometry.logRead_eq_ok (logBlockToPhysical_eq hring) ?_
  simp [Disk.read, world, Disk.view, hlt, hne]

theorem read_zero : world.disk.read 0 = some superBlock := by
  simp [Disk.read, world, Disk.view]

theorem scan_spins (fuel : Nat) (ok : Bool) (consumed : Nat) (h : geometry.InRing log) :
    (scanLoop geometry (ofNat 1) fuel ok consumed log).run handle world =
      (.error .spin, world) := by
  induction fuel generalizing ok consumed log with
  | zero => rfl
  | succ fuel ih =>
    have hchain := isChainBlock_putHeader (Bytes.zeros _) (ofNat 1)
      (show blocktypeRevoke < 2 ^ 32 by decide)
    -- the counter is a u32, so it never exceeds a maxlen of u32::MAX
    have hwrap : ¬geometry.maxlen < bump consumed := by
      change ¬4294967295 < (consumed + 1) % 2 ^ 32
      omega
    rw [scan_revoke (logRead_ring h) hchain, if_neg hwrap]
    exact ih _ _ (h.advance 1)

end Widest

end Ext4
