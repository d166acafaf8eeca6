import Ext4.Mount.Checks
import Ext4.Mount.Mirror
import Mathlib.Logic.Relation

namespace Ext4

open Bytes Inode InodeDesc Specimen

namespace Fs

variable {t : InodeTable} {fs fs' : Fs}

structure Moored (t : InodeTable) (fs : Fs) : Prop where
  wf : fs.layout.Wf
  system : ∀ b ∈ fs.layout.systemBids, fs.layout.Contains b → fs.blockUsed b = true
  narrow : fs.layout.sb.blocksCount ≤ 2 ^ 48
  tabled : fs.layout.Tabled t
  contains : ∀ b, fs.layout.Tables b → fs.layout.Contains b
  tables : ∀ b, fs.layout.Tables b → fs.blockUsed b = true

theorem Zoned.moored (hz : fs.Zoned t) : fs.Moored t :=
  ⟨hz.steady.wf, hz.steady.system, hz.steady.narrow, hz.tabled, hz.contains, hz.tables⟩

theorem Moored.zoned (h : fs.Moored t) (ho : fs.Open) : fs.Zoned t :=
  ⟨ho.2, ⟨ho.1, h.wf, h.system, h.narrow⟩, h.tabled, h.contains, h.tables⟩

theorem Moored.turns (h : fs.Moored t) (ht : fs.Turns fs') : fs'.Moored t := by
  obtain ⟨wf, system, narrow, tabled, contains, tables⟩ := h
  rw [← ht.layout, ← ht.blockUsed] at system
  rw [← ht.layout] at wf narrow tabled contains
  rw [← ht.layout, ← ht.blockUsed] at tables
  exact ⟨wf, system, narrow, tabled, contains, tables⟩

theorem Zoned.open (hz : fs.Zoned t) : fs.Open := ⟨hz.steady.ready, hz.live⟩

end Fs

namespace Mount

open Fs

variable {t : InodeTable} {P P' : Nat → Prop} {m m' : Mount} {ino : Nat}

structure Stays (t : InodeTable) (P : Nat → Prop) (m : Mount) : Prop where
  moored : m.fs.Moored t
  mirrors : m.Mirrors t P

theorem Listed.stays (h : m.Listed t P) : m.Stays t P := ⟨h.zoned.moored, h.mirrors⟩

theorem Stays.listed (h : m.Stays t P) (ho : m.fs.Open) : m.Listed t P := ⟨h.moored.zoned ho, h.mirrors⟩

theorem Stays.turns (h : m.Stays t P) (ht : m.fs.Turns m'.fs) (hchain : m'.chain = m.chain) :
    m'.Stays t P := ⟨h.moored.turns ht, h.mirrors.turns h.moored.tabled ht hchain⟩

theorem Stays.weaken (h : m.Stays t P) (hP : ∀ ino ∈ m.chain, P ino → P' ino) : m.Stays t P' :=
  ⟨h.moored, h.mirrors.weaken hP⟩

section Parts

variable (cfg : Config) {α : Type}

theorem mem_dataBlocks_find {extents : List Extent} {e : Extent} {i : Nat}
    (he : extents.find? (fun e => e.covers i) = some e) : e.start + (i - e.block) ∈ dataBlocks extents := by
  have hcover := List.find?_some he
  have hmem := List.mem_of_find?_eq_some he
  refine dataBlocks_subset (fun e' he' => List.mem_singleton.mp he' ▸ hmem) (mem_dataBlocks_single.mpr ?_)
  simp only [Extent.covers, Bool.and_eq_true, decide_eq_true_eq] at hcover
  omega

theorem mapBlocks_ends (hk : m.Kept ino) (iblock : Nat) :
    (mapBlocks ino iblock).Ends m
      (fun found m' => m' = m ∧ ∀ phys, found = some phys → m.fs.Loose [phys]) fun _ m' => m' = m := by
  refine (readInode_ends m ino).bind fun inode m' hm => ?_
  obtain ⟨rfl, hino⟩ := hm
  cases htree : inode.tree with
  | none => exact .fail rfl
  | some tree =>
    obtain ⟨extents, external, hs, hl⟩ := hk inode tree hino htree
    have hlookup := hs.lookup iblock
    have hrun : onFs (tree.lookup iblock) m' = (.ok (extents.find? fun e => e.covers iblock), m') := by
      change ((tree.lookup iblock m'.fs).1, { m' with fs := (tree.lookup iblock m'.fs).2 }) = _
      rw [hlookup]
    refine .bind_of_eq hrun (.ret ⟨rfl, fun phys hphys => ?_⟩)
    obtain ⟨e, he, rfl⟩ := Option.map_eq_some_iff.mp hphys
    exact hl.single (List.mem_append_left _ (mem_dataBlocks_find he))

theorem Listed.skirts {op : FsOp α} (h : m.Listed t P) (hop : m.fs.Skirts t op) :
    (onFs op).Leaves m fun m' => m'.Listed t P ∧ m'.chain = m.chain :=
  .zoom ((hop h.zoned).both fun _ ha => ⟨h.aside ha rfl, rfl⟩)

theorem editDirectory_ends (h : m.Listed t P) (ino : Nat) (f : Directory → Except Fault Directory) :
    (editDirectory ino f).Ends m
      (fun _ m' => m'.Listed t P ∧ m'.chain = m.chain ∧ m.Bears m') fun _ m' => m' = m := by
  refine (readInode_ends m ino).bind fun inode m' hm => ?_
  obtain ⟨rfl, hino⟩ := hm
  refine Op.Ends.bind (Q := fun _ m1 => m1 = m') (.ofExcept (fun _ _ => rfl) fun _ _ => rfl) fun dir m1 hm => ?_
  rw [hm]
  exact .modify ⟨h.memory rfl rfl, rfl, .update h.zoned.steady ino fun _ => rfl⟩

theorem journalDirBlock_ends (h : m.Listed t P) (hk : m.Kept ino) (dirOffset : Nat) :
    (journalDirBlock cfg ino dirOffset).Leaves m fun m' => m'.Listed t P ∧ m'.chain = m.chain := by
  refine (editDirectory_ends h ino _).bindOr (fun _ m1 hm => ?_) fun _ m1 h1 => ?_
  · rw [hm]
    exact ⟨h, rfl⟩
  obtain ⟨h1, hchain, hbears⟩ := h1
  have hlive : m1.fs.handle.isSome = true := h1.zoned.live
  refine .bind_of_eq (a := m1.fs.handle.isSome) rfl ?_
  rw [if_neg (by simp [hlive])]
  refine (mapBlocks_ends (hbears.kept hk) _).bind_same (fun _ => ⟨h1, hchain⟩) fun found hloose => ?_
  cases found with
  | none => exact .fail ⟨h1, hchain⟩
  | some phys =>
    refine (readInode_ends m1 ino).bind_same (fun _ => ⟨h1, hchain⟩) fun inode _ => ?_
    split
    · exact .fail ⟨h1, hchain⟩
    next block _ =>
      exact (h1.skirts (createPatch_skirts (hloose phys rfl) block)).both fun _ h => ⟨h.1, h.2.trans hchain⟩

theorem deleteEntry_ends (h : m.Listed t P) (hk : m.Kept ino) (target : DirEntryInfo) :
    (deleteEntry cfg ino target).Leaves m fun m' => m'.Listed t P ∧ m'.chain = m.chain := by
  refine (editDirectory_ends h ino _).bindOr (fun _ m1 hm => ?_) fun _ m1 h1 => ?_
  · rw [hm]
    exact ⟨h, rfl⟩
  obtain ⟨h1, hchain, hbears⟩ := h1
  exact (journalDirBlock_ends cfg h1 (hbears.kept hk) _).both fun _ h => ⟨h.1, h.2.trans hchain⟩

theorem not_clean_editDesc (m : Mount) (ino : Nat) (f : InodeDesc → InodeDesc) :
    ¬(m.mapInode ino (editDesc f)).Clean ino := by
  rintro ⟨inode', hino, hclean⟩
  rw [mapInode_self, Option.map_eq_some_iff] at hino
  obtain ⟨inode, -, rfl⟩ := hino
  simp [isDirty, editDesc] at hclean

def Spilt (P : Nat → Prop) (m : Mount) (x : Nat) : Prop := P x ∨ x ∉ m.chain

theorem orphanIfUnlinked_ends (h : m.Listed cfg.table P) (hino : 0 < ino ∧ ino < 2 ^ 32) :
    (orphanIfUnlinked cfg ino).Ends m (fun _ m' => m'.Listed cfg.table P)
      fun _ m' => m'.Listed cfg.table (Spilt P m) := by
  refine (readInode_ends m ino).bind_same (fun _ => h.weaken fun x _ hx => .inl hx) fun inode _ => ?_
  split
  swap
  · exact .ret h
  refine (orphanAdd_ends cfg h hino).bindOr (fun _ m2 h2 => ?_) fun link m2 h2 => ?_
  · exact h2.1.weaken fun x _ hx => .inl hx
  obtain ⟨h2, hinodes, -, -⟩ := h2
  refine Op.Ends.bind (Q := fun _ m3 => m3.Listed cfg.table P) (.bind_modify ?_) fun _ m3 h3 => .ret h3
  have h3 : (m2.mapInode ino (editDesc fun desc => { desc with dtime := .orphanNext link })).Listed
      cfg.table _ := h2.memory rfl rfl
  refine (writeBackInodeDesc_ends cfg h3 ino).mono (fun _ m4 h4 => h4.1.weaken fun x _ hx => ?_)
    fun _ m4 h4 => h4.1.weaken fun x _ hx => ?_
  · obtain ⟨hP | ⟨heq, -⟩, hclean⟩ := hx
    · exact hP
    · exact absurd (hclean heq) (not_clean_editDesc m2 ino _)
  · rcases hx with hP | ⟨rfl, hnot⟩
    · exact .inl hP
    · exact .inr hnot

def Numbered (m : Mount) : Prop := ∀ ino, (m.inodes ino).isSome → 0 < ino ∧ ino < 2 ^ 32

theorem ReadOnly.ends {op : MountOp α} (h : ReadOnly op) (m : Mount) :
    op.Leaves m fun m' => m' = m :=
  (Op.Keeps.ends h m).both fun _ h => h.symm

theorem writeBackJournaled_ends (h : m.Listed cfg.table P) (ino : Nat) :
    (writeBackJournaled cfg ino).Leaves m fun m' => m'.Listed cfg.table P ∧ m'.chain = m.chain := by
  have hlive : m.fs.handle.isSome = true := h.zoned.live
  refine .bind_of_eq (a := m.fs.handle.isSome) rfl ?_
  rw [if_pos hlive]
  exact (writeBackInodeDesc_ends cfg h ino).mono
    (fun _ _ h' => ⟨h'.1.weaken fun x _ hx => hx.1, h'.2.1⟩) fun _ _ h' => h'

theorem unlink_ends {parent : Nat} (h : m.Listed cfg.table P) (hk : m.Kept parent) (hn : m.Numbered)
    (name : Name) (now : Duration) :
    (unlink cfg parent name now).Ends m (fun _ m' => m'.Listed cfg.table P)
      fun _ m' => m'.Listed cfg.table (Spilt P m) := by
  have hspilt : ∀ {m' : Mount}, m'.Listed cfg.table P → m'.Listed cfg.table (Spilt P m) := fun h' =>
    h'.weaken fun x _ hx => .inl hx
  refine ((findEntryInfo_readOnly _ _ _).ends m).bindOr (fun _ m1 hm => ?_)
    fun info m1 hm => ?_
  · rw [hm]
    exact hspilt h
  rw [hm]
  refine (readInode_ends m info.ino).bind_same (fun _ => hspilt h) fun child hino => ?_
  split
  · exact .fail (hspilt h)
  refine (deleteEntry_ends cfg h hk info).bindOr (fun _ m3 h3 => hspilt h3.1)
    fun _ m3 h3 => ?_
  obtain ⟨h3, hchain⟩ := h3
  refine .bind_modify (.bind_modify (.bind_modify ?_))
  have hrange := hn info.ino (by rw [hino]; rfl)
  have hedit : (((m3.mapInode parent (editDesc (setMtimeCtime now))).mapInode info.ino
      (editDesc (setCtime now))).mapInode info.ino
      (editDesc (decLinkCount 1))).Listed cfg.table P := h3.memory rfl rfl
  refine (orphanIfUnlinked_ends cfg hedit hrange).bindOr (fun _ m4 h4 => ?_) fun gone m4 h4 => ?_
  · refine h4.weaken fun x _ hx => hx.imp_right fun hnot => ?_
    exact hchain ▸ hnot
  · split
    · exact .ret h4
    · exact (writeBackJournaled_ends cfg h4 _).mono (fun _ _ h => h.1) fun _ _ h => hspilt h.1

end Parts

section Truncates

variable (H : Handles) (cfg : Config)

theorem resizePageCache_ends (hk : m.Kept ino) (newSize oldSize : Nat) :
    (resizePageCache ino newSize oldSize).Leaves m fun m' => m' = m := by
  refine (readInode_ends m ino).bind fun inode m' hm => ?_
  obtain ⟨rfl, -⟩ := hm
  cases inode.tree with
  | none => exact .fail rfl
  | some tree =>
    dsimp only
    split
    · exact .ret rfl
    split
    · exact .fail rfl
    · exact (mapBlocks_ends hk _).bind fun _ m1 h1 => .ret h1.1

theorem needTree_readOnly (ino : Nat) : ReadOnly (needTree ino) := by
  refine .bind (readInode_readOnly ino) fun inode => ?_
  split
  · exact .fail _
  · exact .ret ()

theorem truncateChunk_listed (h : m.Listed t P) (hk : m.Kept ino) (csumSeed : Option UInt32)
    (policy : DataForgetPolicy) (newSize : Nat) (maxCredits : Option Nat) :
    (onTree ino (truncateChunk cfg.geometry csumSeed policy newSize maxCredits)).Ends m
      (fun _ m' => m'.Listed t P ∧ m'.chain = m.chain ∧ m'.Kept ino)
      fun _ m' => m'.Listed t P ∧ m'.chain = m.chain := by
  rcases onTree_cases m ino (truncateChunk cfg.geometry csumSeed policy newSize maxCredits) with
    ⟨e, hrun⟩ | ⟨inode, tree, hino, htree, hrun⟩
  · unfold Op.Ends
    rw [hrun]
    exact ⟨h, rfl⟩
  · obtain ⟨extents, external, hs, hl⟩ := hk inode tree hino htree
    have hunfunded : False → m.fs.Funds (m.fs.layout.systemBids ∪ external.toFinset) 0 := False.elim
    have hends := (truncateChunk_skirts cfg.geometry csumSeed policy hs hl newSize maxCredits h.zoned).and
      (truncateChunk_ends hs hunfunded newSize maxCredits)
    unfold Op.Ends at hends ⊢
    rw [hrun]
    cases hres : truncateChunk cfg.geometry csumSeed policy newSize maxCredits ⟨tree, m.fs⟩ with
    | mk r s' =>
      rw [hres] at hends
      cases r with
      | error e => exact ⟨h.aside hends.1 rfl, rfl⟩
      | ok chunk =>
        obtain ⟨ha, ⟨extents', external', hs', -, htrades⟩, -⟩ := hends
        refine ⟨h.aside ha rfl, rfl, ?_⟩
        intro inode' tree' hino' htree'
        rw [setInode_self] at hino'
        cases hino'
        cases htree'
        refine ⟨extents', external', hs', Loose.aside (fun b hb => ?_) ha⟩
        obtain ⟨hc, hold | hclear⟩ := htrades.origin b hb
        · exact hl b hold
        · exact ⟨hc, h.zoned.not_guarded hc hclear⟩

theorem truncateChunks_ends (h : m.Listed cfg.table P) (hk : m.Kept ino) (newSize rounds : Nat) :
    (truncateChunks H cfg ino newSize rounds).Ends m
      (fun _ m' => m'.Listed cfg.table P ∧ m'.chain = m.chain)
      fun _ m' => m'.Stays cfg.table P ∧ m'.chain = m.chain := by
  induction rounds generalizing m with
  | zero => exact .fail ⟨h.stays, rfl⟩
  | succ rounds ih =>
    refine (readInode_ends m ino).bind_same (fun _ => ⟨h.stays, rfl⟩) fun inode _ => ?_
    refine .bind_get ((truncateChunk_listed cfg h hk _ _ newSize _).bindOr (fun _ m2 h2 => ⟨h2.1.stays, h2.2⟩) fun chunk m2 h2 => ?_)
    obtain ⟨h2, hchain, hk2⟩ := h2
    split
    · exact .ret ⟨h2, hchain⟩
    refine (writeBackInodeDesc_ends cfg h2 ino).bindOr (fun _ m3 h3 => ⟨h3.1.stays, h3.2.trans hchain⟩) fun _ m3 h3 => ?_
    obtain ⟨h3, hchain3, hbears⟩ := h3
    have h3 : m3.Listed cfg.table P := h3.weaken fun x _ hx => hx.1
    have hk3 := hbears.kept hk2
    refine Op.Ends.bind (Q := fun _ m4 => m4.Listed cfg.table P ∧ m4.chain = m.chain ∧ m4.Kept ino)
      (.zoom ((H.restart_ends m3.fs _ h3.zoned.open).mono (fun _ fs4 h4 => ?_) fun _ fs4 h4 => ?_))
      fun _ m4 h4 => ?_
    · obtain ⟨ht, ho⟩ := h4
      refine ⟨Stays.listed (h3.stays.turns ht rfl) ho, hchain3.trans hchain, ?_⟩
      exact Bears.kept (.of_inodes (.turns h3.zoned ht ho) rfl) hk3
    · exact ⟨h3.stays.turns h4.1 rfl, hchain3.trans hchain⟩
    · obtain ⟨h4, hchain4, hk4⟩ := h4
      exact (ih h4 hk4).mono (fun _ _ h => ⟨h.1, h.2.trans hchain4⟩) fun _ _ h => ⟨h.1, h.2.trans hchain4⟩

theorem orphanAddIfAbsent_ends (h : m.Listed cfg.table P) (hino : 0 < ino ∧ ino < 2 ^ 32) :
    (orphanAddIfAbsent cfg ino).Ends m
      (fun _ m' => m'.Listed cfg.table (fun x => P x ∨ x = ino ∧ ino ∉ m.chain) ∧
        m'.inodes = m.inodes ∧ m.fs.Bears m'.fs)
      fun _ m' => m'.Listed cfg.table P ∧ m'.chain = m.chain := by
  refine .bind_get ?_
  have hskip : (Op.ret () : MountOp Unit).Ends m
      (fun _ m' => m'.Listed cfg.table (fun x => P x ∨ x = ino ∧ ino ∉ m.chain) ∧
        m'.inodes = m.inodes ∧ m.fs.Bears m'.fs)
      fun _ m' => m'.Listed cfg.table P ∧ m'.chain = m.chain :=
    .ret ⟨h.weaken fun x _ hx => .inl hx, rfl, .refl h.zoned.steady⟩
  split
  · exact hskip
  split
  · exact hskip
  · exact ((orphanAdd_ends cfg h hino).bind fun _ m1 h1 => .ret ⟨h1.1, h1.2.1, h1.2.2.1⟩)

theorem registerOrderedData_ends (h : m.Listed t P) (hk : m.Kept ino) (file len : Nat) :
    (registerOrderedData file len).Ends m (fun _ m' => m'.Listed t P ∧ m'.Kept ino) fun _ _ => False := by
  rw [registerOrderedData, onFs]
  apply Op.Ends.zoom
  refine (registerOrderedData_evolves h.zoned.steady.ready file len).mono (fun _ fs' hev => ?_)
    fun _ _ hf => hf
  exact ⟨h.aside hev.aside_same rfl, Bears.kept (.of_inodes (.evolves h.zoned hev) rfl) hk⟩

section

variable (h : m.Listed cfg.table P) (hk : m.Kept ino)

include h hk

theorem finishTruncate_ends (newSize rounds : Nat) :
    (finishTruncate H cfg ino newSize rounds).Ends m (fun _ m' => m'.Listed cfg.table P)
      fun _ m' => m'.Stays cfg.table P := by
  refine ((truncateChunks_ends H cfg h hk newSize rounds).mono (fun _ _ h => h.1) fun _ _ h => h.1).bind
    fun _ m1 h1 => ?_
  refine ((orphanDel_ends cfg h1 ino).mono (fun _ _ h => h.1) fun _ _ h => h.1.stays).bind fun _ m2 h2 => ?_
  exact (writeBackInodeDesc_ends cfg h2 ino).mono (fun _ _ h => h.1.weaken fun x _ hx => hx.1)
    fun _ _ h => h.1.stays

theorem shrinkRestartable_ends (hino : 0 < ino ∧ ino < 2 ^ 32) (newSize rounds : Nat) :
    (shrinkRestartable H cfg ino newSize rounds).Ends m (fun _ m' => m'.Listed cfg.table P)
      fun _ m' => m'.Stays cfg.table (Spilt P m) := by
  have hspilt : ∀ {m' : Mount}, m'.Stays cfg.table P → m'.Stays cfg.table (Spilt P m) := fun h' =>
    h'.weaken fun x _ hx => .inl hx
  refine (readInode_ends m ino).bind_same (fun _ => hspilt h.stays) fun inode _ => ?_
  refine (resizePageCache_ends hk newSize _).bindOr (fun _ m2 hm => ?_) fun _ m2 hm => ?_
  · rw [hm]
    exact hspilt h.stays
  rw [hm]
  refine .bind_modify ?_
  have h3 : (m.mapInode ino (editDesc (setSize newSize))).Listed cfg.table P :=
    h.memory rfl rfl
  have hk3 := (Bears.update h.zoned.steady ino fun _ => rfl :
    m.Bears (m.mapInode ino (editDesc (setSize newSize)))).kept hk
  split
  · exact .fail (hspilt h3.stays)
  refine ((needTree_readOnly ino).ends _).bindOr (fun _ m4 hm => ?_) fun _ m4 hm => ?_
  · rw [hm]
    exact hspilt h3.stays
  rw [hm]
  refine (orphanAdd_ends cfg h3 hino).bindOr (fun _ _ h => hspilt h.1.stays)
    fun _ m5 h5 => ?_
  obtain ⟨h5, hinodes, hbears, -⟩ := h5
  have hk5 := (Bears.of_inodes hbears hinodes).kept hk3
  refine (writeBackInodeDesc_ends cfg h5 ino).bindOr (fun _ m6 h6 => ?_)
    fun _ m6 h6 => ?_
  · refine h6.1.stays.weaken fun x _ hx => ?_
    rcases hx with hP | ⟨rfl, hnot⟩
    · exact .inl hP
    · exact .inr hnot
  obtain ⟨h6, -, hbears6⟩ := h6
  have hdirty : ¬m5.Clean ino := by
    intro hclean
    rw [Clean, hinodes] at hclean
    exact not_clean_editDesc m ino _ hclean
  have h6 : m6.Listed cfg.table P := h6.weaken fun x _ hx => by
    obtain ⟨hP | ⟨heq, -⟩, hclean⟩ := hx
    · exact hP
    · exact absurd (hclean heq) hdirty
  have hk6 := hbears6.kept hk5
  refine (registerOrderedData_ends h6 hk6 ino newSize).bindOr (fun _ _ hf => hf.elim)
    fun _ m7 h7 => ?_
  exact (finishTruncate_ends H cfg h7.1 h7.2 newSize rounds).mono (fun _ _ h => h) fun _ _ h => hspilt h

theorem freeUnlinked_ends (rounds : Nat) :
    (freeUnlinked H cfg ino rounds).Ends m (fun _ m' => m'.Listed cfg.table fun x => P x ∧ x ≠ ino)
      fun _ m' => m'.Stays cfg.table P := by
  refine (readInode_ends m ino).bind_same (fun _ => h.stays) fun inode _ => ?_
  refine Op.Ends.bind (Q := fun _ m2 => m2.Listed cfg.table P) (.when (fun _ => ?_) fun _ => h)
    fun _ m2 h2 => ?_
  · exact (truncateChunks_ends H cfg h hk 0 rounds).mono (fun _ _ h => h.1) fun _ _ h => h.1
  refine (orphanDel_ends cfg h2 ino).bindOr (fun _ _ h => h.1.stays) fun _ m3 h3 => ?_
  obtain ⟨h3, hchain, -⟩ := h3
  have h3 : m3.Listed cfg.table fun x => P x ∧ x ≠ ino := h3.weaken fun x hx hP => by
    rw [hchain, h2.mirrors.nodup.mem_erase_iff] at hx
    exact ⟨hP, hx.1⟩
  have hback : ∀ {m' : Mount}, m'.Listed cfg.table (fun x => P x ∧ x ≠ ino) → m'.Stays cfg.table P :=
    fun h => h.stays.weaken fun x _ hx => hx.1
  refine (writeBackInodeDesc_ends cfg h3 ino).bindOr (fun _ _ h => hback h.1)
    fun _ m4 h4 => ?_
  have h4 : m4.Listed cfg.table fun x => P x ∧ x ≠ ino := h4.1.weaken fun x _ hx => hx.1
  exact (h4.skirts (freeInode_skirts cfg.geometry ino _)).mono (fun _ _ h => h.1) fun _ _ h => hback h.1

theorem reclaimUnlinked_ends (hino : 0 < ino ∧ ino < 2 ^ 32) (rounds : Nat) (now : Duration) :
    (reclaimUnlinked H cfg ino rounds now).Ends m (fun _ m' => m'.Listed cfg.table P)
      fun _ m' => m'.Stays cfg.table (Spilt P m) := by
  refine (orphanAddIfAbsent_ends cfg h hino).bindOr (fun _ m1 h1 => ?_) fun _ m1 h1 => ?_
  · exact h1.1.stays.weaken fun x _ hx => .inl hx
  obtain ⟨h1, hinodes, hbears⟩ := h1
  have hk1 := (Bears.of_inodes hbears hinodes).kept hk
  have hspilt : ∀ {m' : Mount}, m'.Stays cfg.table (fun x => P x ∨ x = ino ∧ ino ∉ m.chain) →
      m'.Stays cfg.table (Spilt P m) := fun h' => h'.weaken fun x _ hx => by
    rcases hx with hP | ⟨rfl, hnot⟩
    · exact .inl hP
    · exact .inr hnot
  refine (readInode_ends m1 ino).bind_same (fun _ => hspilt h1.stays) fun inode _ => ?_
  refine Op.Ends.bind (Q := fun _ m3 => m3 = m1) (.when (fun _ => ?_) fun _ => rfl) fun _ m3 hm => ?_
  · refine (resizePageCache_ends hk1 0 _).mono (fun _ _ h => h) fun _ m3 hm => ?_
    rw [hm]
    exact hspilt h1.stays
  rw [hm]
  refine .bind_modify ?_
  have h4 : (m1.mapInode ino (editDesc fun desc => { desc with dtime := .time now, size := 0 })).Listed
      cfg.table (fun x => P x ∨ x = ino ∧ ino ∉ m.chain) := h1.memory rfl rfl
  have hk4 := (Bears.update h1.zoned.steady ino fun _ => rfl : m1.Bears (m1.mapInode ino
    (editDesc fun desc => { desc with dtime := .time now, size := 0 }))).kept hk1
  refine (freeUnlinked_ends H cfg h4 hk4 rounds).mono (fun _ m5 h5 => h5.weaken fun x _ hx => ?_)
    fun _ _ h => hspilt h
  obtain ⟨hP | ⟨heq, -⟩, hne⟩ := hx
  · exact hP
  · exact absurd heq hne

end

end Truncates

inductive Request where
  | add (ino : Nat)
  | addIfAbsent (ino : Nat)
  | del (ino : Nat)
  | writeBack (ino : Nat)
  | unlink (parent : Nat) (name : Name) (now : Duration)
  | shrink (ino newSize rounds : Nat)
  | retruncate (ino newSize rounds : Nat)
  | reclaim (ino rounds : Nat) (now : Duration)

namespace Request

variable (H : Handles) (cfg : Config)

def exec : Request → MountOp Unit
  | .add ino => do
    let _ ← orphanAdd cfg ino
    Op.ret ()
  | .addIfAbsent ino => orphanAddIfAbsent cfg ino
  | .del ino => orphanDel cfg ino
  | .writeBack ino => writeBackInodeDesc cfg ino
  | .unlink parent name now => Mount.unlink cfg parent name now
  | .shrink ino newSize rounds => shrinkRestartable H cfg ino newSize rounds
  | .retruncate ino newSize rounds => finishTruncate H cfg ino newSize rounds
  | .reclaim ino rounds now => reclaimUnlinked H cfg ino rounds now

def Fits (m : Mount) : Request → Prop
  | .add ino | .addIfAbsent ino => 0 < ino ∧ ino < 2 ^ 32
  | .del _ | .writeBack _ => True
  | .unlink parent _ _ => m.Kept parent ∧ m.Numbered
  | .shrink ino _ _ | .reclaim ino _ _ => m.Kept ino ∧ 0 < ino ∧ ino < 2 ^ 32
  | .retruncate ino _ _ => m.Kept ino

def pending (m : Mount) (P : Nat → Prop) : Request → Nat → Prop
  | .add ino, x | .addIfAbsent ino, x => P x ∨ x = ino ∧ ino ∉ m.chain
  | .writeBack ino, x => P x ∧ (x = ino → m.Clean ino)
  | _, x => P x

theorem exec_ends (r : Request) (h : m.Listed cfg.table P) (hf : r.Fits m) :
    (r.exec H cfg).Ends m (fun _ m' => m'.Stays cfg.table (r.pending m P))
      fun _ m' => m'.Stays cfg.table (Spilt P m) := by
  have hspilt : ∀ {m' : Mount}, m'.Listed cfg.table P → m'.Stays cfg.table (Spilt P m) := fun h' =>
    h'.stays.weaken fun x _ hx => .inl hx
  cases r with
  | add ino =>
    exact ((orphanAdd_ends cfg h hf).mono (fun _ _ h => h.1.stays) fun _ _ h => hspilt h.1).bind
      fun _ _ h => .ret h
  | addIfAbsent ino =>
    exact (orphanAddIfAbsent_ends cfg h hf).mono (fun _ _ h => h.1.stays) fun _ _ h => hspilt h.1
  | del ino => exact (orphanDel_ends cfg h ino).mono (fun _ _ h => h.1.stays) fun _ _ h => hspilt h.1
  | writeBack ino =>
    exact (writeBackInodeDesc_ends cfg h ino).mono (fun _ _ h => h.1.stays) fun _ _ h => hspilt h.1
  | unlink parent name now =>
    exact (unlink_ends cfg h hf.1 hf.2 name now).mono (fun _ _ h => h.stays) fun _ _ h => h.stays
  | shrink ino newSize rounds =>
    exact (shrinkRestartable_ends H cfg h hf.1 hf.2 newSize rounds).mono (fun _ _ h => h.stays)
      fun _ _ h => h
  | retruncate ino newSize rounds =>
    exact (finishTruncate_ends H cfg h hf newSize rounds).mono (fun _ _ h => h.stays)
      fun _ _ h => h.weaken fun x _ hx => .inl hx
  | reclaim ino rounds now =>
    exact (reclaimUnlinked_ends H cfg h hf.1 hf.2 rounds now).mono (fun _ _ h => h.stays) fun _ _ h => h

end Request

section Runs

variable (H : Handles) (cfg : Config) {s s' : Mount × (Nat → Prop)}

inductive Step : Mount × (Nat → Prop) → Mount × (Nat → Prop) → Prop
  | done {m m' : Mount} {P : Nat → Prop} (r : Request) (ho : m.fs.Open) (hf : r.Fits m)
      (hrun : r.exec H cfg m = (.ok (), m')) : Step (m, P) (m', r.pending m P)
  | failed {m m' : Mount} {P : Nat → Prop} {e : Fault} (r : Request) (ho : m.fs.Open) (hf : r.Fits m)
      (hrun : r.exec H cfg m = (.error e, m')) : Step (m, P) (m', Spilt P m)
  | rest {m m' : Mount} {P : Nat → Prop} (ht : m.fs.Turns m'.fs) (hchain : m'.chain = m.chain) :
      Step (m, P) (m', P)

theorem Step.stays (h : Step H cfg s s') (hs : s.1.Stays cfg.table s.2) :
    s'.1.Stays cfg.table s'.2 := by
  cases h with
  | done r ho hf hrun => exact (r.exec_ends H cfg (hs.listed ho) hf).of_ok hrun
  | failed r ho hf hrun => exact (r.exec_ends H cfg (hs.listed ho) hf).of_error hrun
  | rest ht hchain => exact hs.turns ht hchain

theorem run_stays (hs : s.1.Stays cfg.table s.2)
    (hrun : Relation.ReflTransGen (Step H cfg) s s') : s'.1.Stays cfg.table s'.2 := by
  induction hrun with
  | refl => exact hs
  | tail _ hstep ih => exact hstep.stays H cfg ih

end Runs

def joined : Handles where
  Rested fs := fs.handle = none ∧ ∃ j txn, fs.journal = some j ∧ j.state.Seats ∧ j.state.active = some txn
  Held fs := fs.Open
  beginOp _ := Op.modify fun fs =>
    { fs with handle := (fs.journal.bind fun j => j.state.active).map fun txn =>
      ⟨txn.tid, txn.outstandingCredits, txn.outstandingCredits⟩ }
  restart _ := Op.ret ()
  close := Op.modify fun fs => { fs with handle := none }
  rested_closed _ h := h.1
  open_held _ h := h
  begin_ends fs n h := by
    obtain ⟨-, j, txn, hj, hseats, hactive⟩ := h
    refine .modify ⟨⟨rfl, rfl, fun _ => rfl⟩, ?_⟩
    simp only [hj, Option.bind_some, hactive, Option.map_some]
    exact ⟨.live ⟨rfl, rfl, ⟨hseats, hactive, rfl⟩, Nat.le_refl _⟩, rfl⟩
  restart_ends _ _ h := .ret ⟨⟨rfl, rfl, fun _ => rfl⟩, h⟩
  close_ends fs h := by
    refine .modify ⟨⟨rfl, rfl, fun _ => rfl⟩, rfl, ?_⟩
    obtain ⟨hready, hsome⟩ := h
    cases hready with
    | plain hn _ =>
      rw [hn] at hsome
      cases hsome
    | live hl => exact ⟨_, _, hl.journal, hl.serves.seats, hl.serves.active⟩

section

variable (credits : Nat) (chain : OrphanChain) (disk : Nat → Option (Option Block)) (inodes : Nat → Option Inode)

include credits chain disk inodes

theorem sampleMount_moored :
    (sampleMount credits chain disk inodes).fs.Moored sampleTable := by
  have hsteady := (sampleVolume credits).steady wide
  have htable : ∀ b, (sampleMount credits chain disk inodes).fs.layout.Tables b → b = 4 := by
    rintro b ⟨idx, -, hlo, hhi⟩
    change 4 ≤ b at hlo
    change b < 4 + 1 at hhi
    omega
  refine ⟨?_, hsteady.system, hsteady.narrow, ⟨(by decide : 0 < 16),
    fun _ _ => (by decide : 16 * 256 ≤ 1 * 4096), ?_, ?_⟩, ?_, ?_⟩
  · obtain ⟨⟩ := hsteady.wf
    constructor <;> assumption
  · intro i hi j hj b _ _
    change i < 1 at hi
    change j < 1 at hj
    omega
  · intro b hb
    rw [htable b hb]
    change 4 ∉ ((sampleVolume credits).fs wide).layout.systemBids
    rw [systemBids_eq]
    decide
  · intro b hb
    rw [htable b hb]
    exact ⟨zero_le, (by decide : 4 < 64)⟩
  · intro b hb
    rw [htable b hb]
    exact blockUsed_eq (sampleVolume credits)
      wide (by decide : 4 < 64)

theorem sampleMount_open : (sampleMount credits chain disk inodes).fs.Open := by
  have hlive := (sampleVolume credits).live wide
  exact ⟨.live ⟨hlive.handle, hlive.journal, hlive.serves, hlive.credits⟩, rfl⟩

end

def listing (file : Inode) : Mount :=
  sampleMount 8 [12]
    (fun b =>
      if b = 0 then some (some ((sampleVolume 8).sb.patchInto
        (some 12) (zeros _)))
      else none)
    fun ino =>
      if ino = 11 then some (sampleDir 11 2 20 2 [⟨nameA, 13, .file⟩])
      else if ino = 13 then some file
      else none

theorem listing_mirrors (file : Inode) : (listing file).Mirrors sampleTable fun _ => False where
  nodup := by
    change [12].Nodup
    decide
  range := by
    change ∀ ino ∈ [12], 0 < ino ∧ ino < 2 ^ 32
    decide
  first := rfl
  head := by
    have hhead : (listing (sampleFile 0)).fs.headOrphan = some 12 := by decide +kernel
    exact hhead
  links := by
    have hnext : (listing (sampleFile 0)).fs.nextOrphan sampleTable 12 = some 0 := by decide +kernel
    exact ⟨fun _ => hnext, trivial⟩

end Mount

end Ext4
