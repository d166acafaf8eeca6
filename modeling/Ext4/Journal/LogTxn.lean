import Ext4.Journal.Layout
import Ext4.Journal.Passes

namespace Ext4

variable {M : Type} {g : JournalGeometry} {r : Nat → Except Fault Block} {tid : Tid} {tag : DescriptorTag}
  {it : ChainItem}

theorem runTags_captured {l : TagLayout} {seed : Option JournalCsumSeed} {len : Nat} {run : List (Nat × Block)}
    {i : Nat} (ht : tag ∈ runTags l seed tid len run i) : ∃ p ∈ run, tag.blocknr = p.1 := by
  induction run generalizing i with
  | nil => cases ht
  | cons p run ih =>
    rcases List.mem_cons.mp ht with rfl | ht
    · exact ⟨p, by simp, rfl⟩
    · obtain ⟨q, hq, he⟩ := ih ht
      exact ⟨q, by simp [hq], he⟩

theorem tag_captured {us : List LogUnit} (hs : ∀ u ∈ us, u.Sound g tid) (hit : it ∈ unitItems us)
    (ht : tag ∈ it.tags) :
    ∃ p ∈ unitCaptures us, tag.blocknr = p.1 := by
  obtain ⟨u, hu, rfl⟩ := List.mem_map.mp hit
  have hsu := hs u hu
  cases hsu with
  | revoke hb hw hok => cases ht
  | run hb hw hok =>
    obtain ⟨p, hp, he⟩ := runTags_captured ht
    exact ⟨p, List.mem_flatMap.mpr ⟨_, hu, hp⟩, he⟩

structure TxnRecord where
  tid : Tid
  captures : List (Nat × Block)
  revokes : List Nat

structure LoggedTxn (g : JournalGeometry) (rec : TxnRecord) where
  units : List LogUnit
  commit : Block
  sound : ∀ u ∈ units, u.Sound g rec.tid
  captures_eq : unitCaptures units = rec.captures
  revokes_eq : unitRevokes units = rec.revokes
  commit_chain : IsChainBlock commit rec.tid blocktypeCommit
  commit_ok : commitOk g commit = true

namespace LoggedTxn

variable {rec : TxnRecord} (t : LoggedTxn g rec)

def blocks : List Block := unitBlocks t.units ++ [t.commit]

def size : Nat := (unitBlocks t.units).length + 1

theorem blocks_length : t.blocks.length = t.size := by simp [blocks, size]

theorem chain {pos : Nat} (hl : Laid g r t.blocks pos) :
    Chain g r rec.tid pos (unitItems t.units) (g.advance pos (unitBlocks t.units).length) :=
  chain_of_laid t.sound t.commit_chain hl

theorem commit_laid {pos : Nat} (hl : Laid g r t.blocks pos) :
    r (g.advance pos (unitBlocks t.units).length) = .ok t.commit :=
  (laid_append.mp hl).2.1

theorem advance_size (pos : Nat) :
    g.nextLogBlock (g.advance pos (unitBlocks t.units).length) = g.advance pos t.size :=
  (g.advance_succ _ _).symm

theorem items_lt : (unitItems t.units).length < t.size :=
  Nat.lt_succ_of_le (unitItems_length_le t.units)

theorem withinLog (hsize : t.size ≤ g.maxlen) : WithinLog g (unitItems t.units) 0 :=
  withinLog_units t.sound (by unfold size at hsize; omega)

theorem tag_dest {D : Nat → Prop} (hdest : ∀ p ∈ rec.captures, D p.1) (hit : it ∈ unitItems t.units)
    (ht : tag ∈ it.tags) : D tag.blocknr := by
  obtain ⟨p, hp, he⟩ := tag_captured t.sound hit ht
  rw [t.captures_eq] at hp
  exact he ▸ hdest p hp

variable {w : World Block M} {pos fuel : Nat}

section

variable (hl : Laid g (g.logRead w.disk) t.blocks pos) (hsize : t.size ≤ g.maxlen) (hf : t.size ≤ fuel)

include hl hsize hf

theorem run_scan :
    (scanTransaction g fuel pos rec.tid).run World.handle w =
      (.ok (some (g.advance pos t.size)), w) := by
  have hitems := t.items_lt
  have hcommit : ∀ block, g.logRead w.disk (g.advance pos (unitBlocks t.units).length) = .ok block →
      commitOk g block = true := by
    intro block hb
    obtain rfl : t.commit = block := Except.ok.inj ((t.commit_laid hl).symm.trans hb)
    exact t.commit_ok
  rw [scanTransaction, scan_of_chain (t.chain hl) (t.withinLog hsize) (by omega)
    (tailsOk_units t.sound) hcommit, t.advance_size]

theorem run_collect (table : RevokeTable) :
    (collectTransactionRevokes g fuel pos rec.tid table).run World.handle w =
      (.ok (g.advance pos t.size, table.recordAll rec.revokes rec.tid), w) := by
  have hitems := t.items_lt
  rw [collectTransactionRevokes, Ext4.run_collect (t.chain hl) (t.withinLog hsize) (by omega),
    collect_units t.sound, t.revokes_eq, t.advance_size]
  rfl

theorem run_apply (hdest : ∀ p ∈ rec.captures, p.1 < w.disk.size ∧ p.1 ∉ g.blockMap) (revoked : RevokeTable) :
    (applyLogTransaction g fuel pos rec.tid revoked).run World.handle w =
      (.ok (g.advance pos t.size),
        w.issue (rec.captures.filter fun p => !revoked.suppresses p.1 rec.tid)) := by
  have hitems := t.items_lt
  have hout : ∀ it ∈ unitItems t.units, ∀ tag ∈ it.tags, tag.blocknr ∉ g.blockMap :=
    fun it hit tag htag =>
      (t.tag_dest (D := fun b => b < w.disk.size ∧ b ∉ g.blockMap) hdest hit htag).2
  have hlaid := (laid_append.mp hl).1
  have hlt : ∀ p ∈ unitCaptures t.units, p.1 < w.disk.size := fun p hp =>
    (hdest p (t.captures_eq ▸ hp)).1
  rw [applyLogTransaction, Ext4.run_apply (t.chain hl) rfl (t.withinLog hsize) (by omega)
    (tailsOk_units t.sound) hout, replay_units t.sound revoked hlaid hlt, t.captures_eq,
    t.advance_size]
  rfl

end

end LoggedTxn

end Ext4
