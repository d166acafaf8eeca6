import Ext4.Mount.Checks
import Ext4.Mount.Cleanup
import Ext4.Mount.Spends

namespace Ext4

open Op List Extent

namespace ExtentTree

def Slack (tree : ExtentTree) : Prop :=
  ∃ extents, extents.length < inlineMax ∧ Holds (extentCell 60) 0 tree.root extents ∧
    ∀ e ∈ extents, e.Valid ∧ e.isUnwritten = false

def Pending (b : Nat) (tree : ExtentTree) : Prop :=
  ∃ extents, extents.length ≤ inlineMax ∧ Holds (extentCell 60) 0 tree.root extents ∧
    ∀ e ∈ extents, e.Valid ∧ (e.isUnwritten = true → e.block = b ∧ e.len = 1)

theorem Slack.pending {tree : ExtentTree} (h : tree.Slack) (b : Nat) : tree.Pending b := by
  obtain ⟨extents, hlen, hholds, hall⟩ := h
  refine ⟨extents, le_of_lt hlen, hholds, fun e he => ⟨(hall e he).1, fun hun => ?_⟩⟩
  rw [(hall e he).2] at hun
  cases hun

theorem slack_empty : empty.Slack :=
  ⟨[], by decide, holds_inlineLeafRoot (fun _ h => absurd h not_mem_nil) (by decide),
    fun _ h => absurd h not_mem_nil⟩

end ExtentTree

def Fs.Narrow48 (fs : Fs) : Prop :=
  ∀ idx < fs.sb.nrBlockGroups, (fs.groups idx).layout.firstBlock + (fs.groups idx).layout.blockBits ≤ 2 ^ 48

theorem Fs.Sites.narrow48 {fs fs' : Fs} (h : fs.Sites fs') (hw : fs.Narrow48) : fs'.Narrow48 := by
  intro idx hidx
  rw [h.group]
  exact hw idx (h.nrBlockGroups ▸ hidx)

section Tree

variable {g : JournalGeometry} {csumSeed : Option UInt32} {s : TreeFs} {extents : List Extent} {b : Nat}
  {e : Extent} {start : Nat}

theorem flatten_inline (hlen : extents.length ≤ inlineMax) (h : Holds (extentCell 60) 0 s.tree.root extents) :
    TreeFs.flatten s = (.ok (extents, []), s) := TreeFs.flatten_eq (.inline hlen h)

theorem pending_merge {a : Extent} (ha : a.Valid ∧ (a.isUnwritten = true → a.block = b ∧ a.len = 1))
    (he : e.Valid ∧ (e.isUnwritten = true → e.block = b ∧ e.len = 1)) (hc : a.contiguous e = true) :
    Extent.Valid ⟨a.block, a.len + e.len, a.start, a.kind⟩ ∧
      (isUnwritten ⟨a.block, a.len + e.len, a.start, a.kind⟩ = true →
        a.block = b ∧ a.len + e.len = 1) := by
  refine ⟨ha.1.merge he.1 hc, fun hun => ?_⟩
  obtain ⟨hblock, -, hkind, -⟩ := contiguous_iff.mp hc
  have hlast := ha.2 hun
  have hnext := he.2 (by rw [isUnwritten, ← hkind]; exact hun)
  omega

section

variable (h : s.tree.Slack) (hb : b + 1 < 2 ^ 32) (hstart : start + 1 ≤ 2 ^ 48)

include h hb hstart

theorem insert_pending :
    (Ext4.insert g csumSeed b start 1 .unwritten).Ends s
      (fun _ s' => s'.fs = s.fs ∧ s'.tree.Pending b) fun _ _ => False := by
  obtain ⟨extents, hlen, hholds, hall⟩ := h
  have hmerged := length_mergeExtents_le (extents ++ [⟨b, 1, start, .unwritten⟩])
  rw [length_append, length_singleton] at hmerged
  have hfit : (mergeExtents (extents ++ [⟨b, 1, start, .unwritten⟩])).length ≤ inlineMax := by omega
  have hpending : ∀ e ∈ mergeExtents (extents ++ [⟨b, 1, start, .unwritten⟩]),
      e.Valid ∧ (e.isUnwritten = true → e.block = b ∧ e.len = 1) := by
    refine forall_mergeExtents (fun _ _ => pending_merge) fun e he => ?_
    rcases mem_append.mp he with he | he
    · refine ⟨(hall e he).1, fun hun => ?_⟩
      rw [(hall e he).2] at hun
      cases hun
    · obtain rfl := mem_singleton.mp he
      have hlen : 1 ≤ maxUnwrittenLen := by decide
      refine ⟨⟨⟨Nat.one_pos, ?_, ?_, hlen⟩, ?_, hstart⟩, fun _ => ⟨rfl, rfl⟩⟩
      · dsimp only
        omega
      · dsimp only
        omega
      · unfold stop
        dsimp only
        omega
  refine .bind_of_eq (flatten_inline hlen.le hholds) ?_
  refine .bind_of_eq (reserialize_inline_eq hfit) ?_
  refine .modify ⟨rfl, _, hfit, ?_, hpending⟩
  exact holds_inlineLeafRoot (fun e he => (hpending e he).1.toEncodable) hfit

theorem insertFresh_pending :
    (insertFresh g csumSeed b start 1).Ends s
      (fun _ s' => s'.fs = s.fs ∧ s'.tree.Pending b) fun _ _ => False := by
  refine Op.Ends.bind (Q := fun res s' => res = .ok () ∧ s'.fs = s.fs ∧ s'.tree.Pending b) (.attempt ?_)
    fun res s' h' => ?_
  · exact (insert_pending h hb hstart).mono (fun _ _ h => ⟨rfl, h⟩) fun _ _ h => h.elim
  · obtain ⟨rfl, h'⟩ := h'
    exact .ret h'

end

theorem fillHole_pending (h : s.tree.Slack) (hw : s.fs.Narrow48) (hb : b + 1 < 2 ^ 32) (goal projected : Nat) :
    (fillHole g csumSeed .wholeRange goal (b + 1) 1 b projected).Ends s
      (fun step s' => (∃ projected', step = .done projected') ∧ s.fs.Spends true 0 s'.fs ∧ s'.tree.Pending b)
      fun _ s' => s.fs.Spends true 0 s'.fs := by
  unfold fillHole
  rw [if_neg (by omega)]
  have hfree (need : Nat) : TreeFs.onFs (reserveInsert g .wholeRange need) s = (.ok false, s) := rfl
  refine .bind_get (.bind_of_eq (hfree _) ?_)
  rw [if_neg (by decide)]
  refine Op.Ends.bind (Q := fun r s1 => s.fs.Spends true 0 s1.fs ∧ s1.tree = s.tree ∧
      r.len = 1 ∧ r.start + 1 ≤ 2 ^ 48) (.zoom ?_) fun r s1 h1 => ?_
  · refine (Fs.allocBlocks_spends g s.fs _ goal).mono (fun r fs' hr => ?_) fun _ _ h => h
    obtain ⟨hspend, hpos, hle, idx, hidx, hstop⟩ := hr
    have hwide := hw idx hidx
    have hone : min (b + 1 - b) maxUnwrittenLen = 1 := by
      unfold maxUnwrittenLen maxWrittenLen
      omega
    unfold IdRange.len at hle
    rw [hone] at hle
    refine ⟨hspend, rfl, ?_, by omega⟩
    unfold IdRange.len
    omega
  · obtain ⟨hspend, htree, hlen, hstart⟩ := h1
    rw [hlen]
    refine (insertFresh_pending (by rw [htree]; exact h) hb hstart).bindOr (fun _ _ h => h.elim) fun _ s2 h2 => ?_
    refine .ret ⟨⟨_, rfl⟩, ?_, h2.2⟩
    rw [h2.1]
    exact hspend

theorem computeHoles_single (b : Nat) (extents : List Extent) :
    computeHoles (b + 1) b extents = [] ∨ computeHoles (b + 1) b extents = [⟨b, b + 1⟩] := by
  have hlast : lastHole (b + 1) b = [⟨b, b + 1⟩] := if_pos (Nat.lt_succ_self b)
  induction extents with
  | nil => exact .inr hlast
  | cons e rest ih =>
    unfold computeHoles
    split
    · exact ih
    split
    · exact .inr hlast
    · rw [if_neg (by omega), if_pos (by omega)]
      exact .inl rfl

theorem ensureAllocated_pending (h : s.tree.Slack) (hw : s.fs.Narrow48) (hb : b + 1 < 2 ^ 32) :
    (ensureAllocated g csumSeed b (b + 1)).Ends s
      (fun _ s' => s.fs.Spends true 0 s'.fs ∧ s'.tree.Pending b) fun _ s' => s.fs.Spends true 0 s'.fs := by
  refine Op.Ends.bind (Q := fun _ s' => s.fs.Spends true 0 s'.fs ∧ s'.tree.Pending b) ?_ fun _ _ h => .ret h
  obtain ⟨extents, hlen, hholds, hall⟩ := id h
  unfold fillHoles
  rw [if_neg (by omega)]
  refine .bind_of_eq (flatten_inline hlen.le hholds) ?_
  dsimp only
  rcases computeHoles_single b (sortByBlock extents) with hnone | hone
  · rw [hnone]
    exact .ret ⟨Graded.refl s.fs, h.pending b⟩
  · rw [hone]
    unfold fillRuns
    dsimp only
    rw [Nat.add_sub_cancel_left]
    refine (fillHole_pending h hw hb _ _).bind fun step s1 h1 => ?_
    obtain ⟨⟨projected', rfl⟩, h1⟩ := h1
    exact .ret h1

theorem convert_pending (h : e.isUnwritten = true → e.block = b ∧ e.len = 1) :
    (e.convert b (b + 1)).length = 1 := by
  unfold convert
  split
  next => rfl
  next hc =>
    simp only [Bool.or_eq_true, Bool.not_eq_true', decide_eq_true_eq, not_or] at hc
    obtain ⟨hblock, hlen⟩ := h (by simpa using hc.1.1)
    have hlo : ¬e.block < max e.block b := by omega
    have hhi : ¬min (e.block + e.len) (b + 1) < e.block + e.len := by omega
    simp only [hlo, hhi, if_false]
    rfl

theorem markRangeWritten_pending (h : s.tree.Pending b) (g : JournalGeometry) (csumSeed : Option UInt32) :
    (markRangeWritten g csumSeed b (b + 1)).Ends s (fun _ s' => s'.fs = s.fs) fun _ _ => False := by
  obtain ⟨extents, hlen, hholds, hall⟩ := h
  have hflat : (extents.flatMap (convert b (b + 1))).length = extents.length := by
    rw [length_flatMap, map_congr_left (g := fun _ => 1)
      fun e he => convert_pending (hall e he).2]
    simp
  have hmerged := length_mergeExtents_le (extents.flatMap (convert b (b + 1)))
  unfold markRangeWritten
  rw [if_neg (by omega), Nat.add_sub_cancel_left]
  refine .bind_of_eq (flatten_inline hlen hholds) ?_
  dsimp only
  split
  · refine .bind_of_eq (reserialize_inline_eq (by omega)) ?_
    exact .modify rfl
  · exact .ret rfl

end Tree

namespace Mount

variable {f : Inode → Inode}

def Indexes (m m' : Mount) : Prop :=
  ∀ ino inode', m'.inodes ino = some inode' → inode'.hasIndex = true →
    ∃ inode, m.inodes ino = some inode ∧ inode.hasIndex = true

instance : IsPreorder Mount Indexes where
  refl _ _ inode hino hidx := ⟨inode, hino, hidx⟩
  trans _ _ _ h₁ h₂ ino inode hino hidx := by
    obtain ⟨inode₁, hino₁, hidx₁⟩ := h₂ ino inode hino hidx
    exact h₁ ino inode₁ hino₁ hidx₁

structure Spends (alloc : Bool) (n : Nat) (m m' : Mount) : Prop where
  fs : m.fs.Spends alloc n m'.fs
  indexes : m.Indexes m'

instance (alloc : Bool) : Graded (Spends alloc) where
  refl m := ⟨Graded.refl m.fs, refl_of Indexes m⟩
  mono hle h := ⟨Graded.mono hle h.fs, h.indexes⟩
  trans h₁ h₂ := ⟨Graded.trans h₁.fs h₂.fs, trans_of Indexes h₁.indexes h₂.indexes⟩

section Relation

variable {m m' : Mount} {alloc : Bool} {n : Nat} {ino : Nat}

theorem Spends.refl (m : Mount) : Spends alloc 0 m m := Graded.refl m

theorem Indexes.of_inodes (h : m'.inodes = m.inodes) : m.Indexes m' := by
  intro x inode hx hidx
  rw [h] at hx
  exact ⟨inode, hx, hidx⟩

theorem Indexes.setInode {inode : Inode}
    (h : inode.hasIndex = true → ∃ old, m.inodes ino = some old ∧ old.hasIndex = true) :
    m.Indexes (m.setInode ino inode) := by
  intro x inode' hx hidx
  by_cases hxi : x = ino
  · rw [hxi, setInode_self] at hx
    cases hx
    rw [hxi]
    exact h hidx
  · rw [setInode_of_ne m inode hxi] at hx
    exact ⟨inode', hx, hidx⟩

theorem Indexes.mapInode (hf : ∀ inode, (f inode).hasIndex = true → inode.hasIndex = true) :
    m.Indexes (m.mapInode ino f) := by
  intro x inode' hx hidx
  by_cases hxi : x = ino
  · rw [hxi, mapInode_self, Option.map_eq_some_iff] at hx
    obtain ⟨inode, hino, rfl⟩ := hx
    rw [hxi]
    exact ⟨inode, hino, hf inode hidx⟩
  · rw [mapInode_of_ne m f hxi] at hx
    exact ⟨inode', hx, hidx⟩

theorem Spends.mapInode (m : Mount) (ino : Nat) (hf : ∀ inode, (f inode).hasIndex = true → inode.hasIndex = true) :
    Spends alloc 0 m (m.mapInode ino f) := ⟨Graded.refl m.fs, .mapInode hf⟩

end Relation

section Steps

variable {α : Type} {alloc : Bool} {n : Nat} (cfg : Config)

theorem onFs_costs {op : FsOp α} (h : Costs (Fs.Spends alloc) n op) : Costs (Spends alloc) n (onFs op) :=
  .lift h fun _ _ hfs => ⟨hfs, .of_inodes rfl⟩

theorem readOnly_costs {op : MountOp α} (h : ReadOnly op) : Costs (Spends alloc) 0 op := fun m => by
  rw [← h m]
  exact Graded.refl m

theorem updateInode_costs (ino : Nat) (hf : ∀ inode, (f inode).hasIndex = true → inode.hasIndex = true) :
    Costs (Spends alloc) 0 (updateInode ino f) := Keeps.modify fun m => .mapInode m ino hf

theorem updateDesc_costs (ino : Nat) {f : InodeDesc → InodeDesc} (hf : ∀ desc, (f desc).flags = desc.flags) :
    Costs (Spends alloc) 0 (updateDesc ino f) :=
  updateInode_costs ino fun inode h => by
    rwa [Inode.hasIndex, Inode.editDesc, hf] at h

theorem journaled_readOnly : ReadOnly journaled := .bind .get fun _ => .ret _

theorem mapBlocks_readOnly (ino iblock : Nat) : ReadOnly (mapBlocks ino iblock) := by
  refine .bind (readInode_readOnly ino) fun inode => ?_
  split
  · exact .fail _
  · refine .bind ?_ fun _ => .ret _
    exact .lift (R := (· = ·)) (lookup_keeps _ _).1 fun m fs heq => by rw [← heq]

theorem editDirectory_costs (ino : Nat) (f : Directory → Except Fault Directory) :
    Costs (Spends alloc) 0 (editDirectory ino f) :=
  .after (readOnly_costs (readInode_readOnly ino)) fun _ => .after (.ofExcept _) fun _ =>
    updateInode_costs ino fun _ h => h

theorem journalDirBlock_costs (ino dirOffset : Nat) :
    Costs (Spends alloc) 1 (journalDirBlock cfg ino dirOffset) := by
  refine .after (editDirectory_costs ino _) fun _ => ?_
  refine .after (readOnly_costs journaled_readOnly) fun live => ?_
  split
  · exact (Costs.ret ()).le zero_le
  · refine .after (readOnly_costs (mapBlocks_readOnly ino _)) fun found => ?_
    cases found with
    | none => exact (Costs.fail _).le zero_le
    | some phys =>
      refine .after (readOnly_costs (readInode_readOnly ino)) fun inode => ?_
      split
      · exact (Costs.fail _).le zero_le
      · refine onFs_costs ?_
        exact .before (Fs.getCreateAccess_costs cfg.geometry phys) fun access => Fs.patch_costs access _

section

variable (ino : Nat)

theorem writeBackInodeDesc_costs : Costs (Spends alloc) 1 (writeBackInodeDesc cfg ino) := by
  refine .after (readOnly_costs (readInode_readOnly ino)) fun inode => ?_
  split
  · exact (Costs.ret ()).le zero_le
  · refine .after (updateDesc_costs ino fun _ => rfl) fun _ => ?_
    refine .after (readOnly_costs (readInode_readOnly ino)) fun _ => .after .get fun m => ?_
    refine .before (onFs_costs (Fs.writeBackInodeDesc_costs _ _ _ _ _ _)) fun _ => ?_
    exact updateInode_costs ino fun _ h => h

theorem writeBackJournaled_costs : Costs (Spends alloc) 1 (writeBackJournaled cfg ino) := by
  refine .after (readOnly_costs journaled_readOnly) fun live => ?_
  split
  · exact writeBackInodeDesc_costs cfg ino
  · exact (Costs.ret ()).le zero_le

theorem addEntry_costs (slot : DirSlotInfo) (name : Name) (target : Nat)
    (type : DirEntryFileType) : Costs (Spends alloc) 1 (addEntry cfg ino slot name target type) :=
  .after (editDirectory_costs ino _) fun _ => journalDirBlock_costs cfg ino _

theorem deleteEntry_costs (target : DirEntryInfo) :
    Costs (Spends alloc) 1 (deleteEntry cfg ino target) :=
  .after (editDirectory_costs ino _) fun _ => journalDirBlock_costs cfg ino _

theorem setEntryTarget_costs (entry : DirEntryInfo) (newIno : Nat) (newType : DirEntryFileType) :
    Costs (Spends alloc) 1 (setEntryTarget cfg ino entry newIno newType) :=
  .after (editDirectory_costs ino _) fun _ => journalDirBlock_costs cfg ino _

theorem orphanAdd_costs : Costs (Spends alloc) 1 (orphanAdd cfg ino) := by
  refine .after .get fun m => ?_
  split
  · exact (Costs.ret _).le zero_le
  split
  · exact (Costs.ret _).le zero_le
  · refine .before (onFs_costs (Fs.capturePatch_costs _ _ _)) fun _ => ?_
    refine .after (Keeps.modify fun m => ⟨?_, .of_inodes rfl⟩) fun _ => Costs.ret _
    exact .of_adds (S := ∅) ⟨rfl, fun _ => rfl⟩ (fun _ hb => .inl hb) (Nat.le_refl 0)

theorem orphanIfUnlinked_costs : Costs (Spends alloc) 2 (orphanIfUnlinked cfg ino) := by
  refine .after (readOnly_costs (readInode_readOnly ino)) fun inode => ?_
  split
  · refine Costs.bind (i := 1) (j := 1) (orphanAdd_costs cfg ino) fun link => ?_
    refine .before ?_ fun _ => .ret _
    exact .after (updateDesc_costs ino fun _ => rfl) fun _ => writeBackInodeDesc_costs cfg ino
  · exact (Costs.ret _).le zero_le

end

end Steps

end Mount

end Ext4
