import Ext4.Journal.Commit
import Ext4.Journal.Layout

namespace Ext4

variable {M : Type} {g : JournalGeometry} {q : Nat} {d : Disk Block} {w : World Block M}

structure JournalGeometry.Mapped (g : JournalGeometry) (size : Nat) : Prop where
  nodup : g.blockMap.Nodup
  lt : ∀ p ∈ g.blockMap, p < size

namespace JournalGeometry

variable {pos p : Nat}

def physical (g : JournalGeometry) (pos : Nat) : Nat := g.blockMap.getD pos 0

theorem physical_eq (h : pos < g.maxlen) :
    g.logBlockToPhysical pos = some (g.physical pos) := by
  have hlen : pos < g.blockMap.length := lt_of_lt_of_le h g.maxlen_le
  simp [logBlockToPhysical, physical, hlen]

theorem physical_mem (h : pos < g.maxlen) : g.physical pos ∈ g.blockMap :=
  List.mem_of_getElem? (physical_eq h)

theorem maxlen_pos (g : JournalGeometry) : 0 < g.maxlen := lt_trans g.first_pos g.first_lt

variable {size : Nat}

theorem Mapped.physical_inj (hm : g.Mapped size) (hp : p < g.maxlen) (hq : q < g.maxlen)
    (h : g.physical p = g.physical q) : p = q := by
  have he : g.blockMap[p]? = g.blockMap[q]? :=
    (physical_eq hp).trans ((congrArg some h).trans (physical_eq hq).symm)
  exact (List.getElem?_inj (lt_of_lt_of_le hp g.maxlen_le) hm.nodup).mp he

theorem Mapped.physical_lt (hm : g.Mapped size) (hp : p < g.maxlen) :
    g.physical p < size :=
  hm.lt _ (physical_mem hp)

theorem Mapped.logRead_eq (hm : g.Mapped d.size) (h : pos < g.maxlen) :
    g.logRead d pos = .ok (d.view (g.physical pos)) := by
  simp [logRead, physical_eq h, Disk.read, hm.physical_lt h]

theorem Mapped.run_writeLogBlock (hm : g.Mapped w.disk.size) (h : pos < g.maxlen) (block : Block) :
    (g.writeLogBlock pos block).run World.handle w = (.ok (), w.issue [(g.physical pos, block)]) := by
  rw [writeLogBlock, physical_eq h]
  simp only
  rw [run_writeBlock, if_pos (hm.physical_lt h)]

end JournalGeometry

def logWrites (g : JournalGeometry) : List Block → Nat → List (Nat × Block)
  | [], _ => []
  | block :: blocks, pos => (g.physical pos, block) :: logWrites g blocks (g.nextLogBlock pos)

theorem logWrites_append (as bs : List Block) (pos : Nat) :
    logWrites g (as ++ bs) pos = logWrites g as pos ++ logWrites g bs (g.advance pos as.length) := by
  induction as generalizing pos with
  | nil => rfl
  | cons a as ih => simp [logWrites, ih, JournalGeometry.advance]

theorem mem_logWrites {blocks : List Block} {pos : Nat} {x : Nat × Block} (hx : x ∈ logWrites g blocks pos) :
    ∃ i, blocks[i]? = some x.2 ∧ x.1 = g.physical (g.advance pos i) := by
  induction blocks generalizing pos with
  | nil => cases hx
  | cons b bs ih =>
    rcases List.mem_cons.mp hx with rfl | hx
    · exact ⟨0, rfl, rfl⟩
    · obtain ⟨i, hi, he⟩ := ih hx
      exact ⟨i + 1, by simpa using hi, he⟩

theorem run_writeLogBlocks (hm : g.Mapped w.disk.size) {blocks : List Block} {pos : Nat} (hpos : g.InRing pos) :
    (writeLogBlocks g blocks pos).run World.handle w =
      (.ok (g.advance pos blocks.length), w.issue (logWrites g blocks pos)) := by
  induction blocks generalizing pos w with
  | nil => simp [writeLogBlocks, logWrites, JournalGeometry.advance]
  | cons b bs ih =>
    rw [writeLogBlocks, Prog.bind_eq, Prog.run_bind_ok _ (hm.run_writeLogBlock hpos.2 b),
      ih (w := w.issue [(g.physical pos, b)]) hm hpos.next]
    simp [logWrites, JournalGeometry.advance]

section Written
variable {size : Nat} (hm : g.Mapped size) {blocks : List Block} {pos : Nat} (hpos : g.InRing pos)
  (m : Nat → Block)
include hm hpos

theorem view_logWrites_other (hq : q < g.maxlen) (hne : ∀ i < blocks.length, g.advance pos i ≠ q) :
    Disk.applyWrites (logWrites g blocks pos) m (g.physical q) = m (g.physical q) := by
  apply Disk.applyWrites_other
  intro x hx he
  obtain ⟨i, hi, hx⟩ := mem_logWrites hx
  have hlt := (List.getElem?_eq_some_iff.mp hi).1
  exact hne i hlt (hm.physical_inj (hpos.advance i).2 hq (hx.symm.trans he))

theorem view_logWrites (hlen : blocks.length ≤ g.ring) {i : Nat} {block : Block} (hi : blocks[i]? = some block) :
    Disk.applyWrites (logWrites g blocks pos) m (g.physical (g.advance pos i)) = block := by
  induction blocks generalizing pos m i with
  | nil => simp at hi
  | cons b bs ih =>
    simp only [List.length_cons] at hlen
    cases i with
    | zero =>
      obtain rfl : b = block := by simpa using hi
      have hne : ∀ j < bs.length, g.advance (g.nextLogBlock pos) j ≠ pos := by
        intro j hj he
        have := hpos.advance_inj (i := j + 1) (j := 0) (by omega) (by omega) he
        omega
      rw [logWrites, Disk.applyWrites_cons]
      exact (view_logWrites_other hm hpos.next _ hpos.2 hne).trans (Function.update_self _ _ _)
    | succ i => exact ih hpos.next _ (by omega) (by simpa using hi)

end Written

theorem laid_iff_view (hm : g.Mapped d.size) {blocks : List Block} {pos : Nat} (hpos : g.InRing pos) :
    Laid g (g.logRead d) blocks pos ↔
      ∀ i block, blocks[i]? = some block → d.view (g.physical (g.advance pos i)) = block := by
  rw [laid_iff]
  refine forall₃_congr fun i block _ => ?_
  rw [hm.logRead_eq (hpos.advance i).2, Except.ok.injEq]

end Ext4
