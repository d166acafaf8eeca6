import Ext4.Mount.Cleanup

namespace Ext4

open Bytes Op List Fs

namespace RawInode

variable {raw raw' : RawInode}

section

variable (h : Alike raw raw')

include h

theorem Alike.rootBlock : raw'.rootBlock = raw.rootBlock := by
  funext i
  have hbytes : slice raw' (rawInode.offset .block) 60 = slice raw (rawInode.offset .block) 60 :=
    h .block (by decide) (by decide) (by decide)
  exact map_inj_left.mp hbytes i.val (mem_range.mpr i.isLt)

theorem Alike.ofRaw (type : InodeType) :
    InodeDesc.ofRaw raw' type =
      { InodeDesc.ofRaw raw type with dtime := .time (.fromSecs (rawInode.num raw' .dtime)) } := by
  have hnum : ∀ f, f ≠ .dtime → f ≠ .checksumLo → f ≠ .checksumHi → rawInode.num raw' f = rawInode.num raw f :=
    fun f hd hlo hhi => h.num hd hlo hhi
  simp only [InodeDesc.ofRaw, InodeDesc.rawSize, RawInode.time, h.rootBlock]
  simp only [hnum, ne_eq, reduceCtorEq, not_false_eq_true]

theorem Alike.rawSize (type : InodeType) :
    InodeDesc.rawSize raw' type = InodeDesc.rawSize raw type :=
  congrArg InodeDesc.size (h.ofRaw type)

theorem Alike.tryFrom :
    InodeDesc.tryFrom raw' = (InodeDesc.tryFrom raw).map fun desc =>
      { desc with dtime := .time (.fromSecs (rawInode.num raw' .dtime)) } := by
  unfold InodeDesc.tryFrom
  rw [h.num (f := .linkCount) (by decide) (by decide) (by decide), h.num (f := .mode) (by decide) (by decide) (by decide)]
  split
  · rfl
  split
  · rfl
  next type _ =>
    rw [h.rawSize type]
    split
    · rfl
    split
    · rfl
    · rw [h.ofRaw type]
      rfl

theorem Alike.put {f : RawField} {v : List UInt8} (hv : v.length = rawInode.width f) :
    Alike (rawInode.put raw f v) (rawInode.put raw' f v) := by
  intro g hd hlo hhi
  by_cases heq : f = g
  · subst heq
    rw [rawInode.bytes_put_same raw' hv, rawInode.bytes_put_same raw hv]
  · rw [rawInode.bytes_put_other raw' hv heq, rawInode.bytes_put_other raw hv heq]
    exact h g hd hlo hhi

end

end RawInode

namespace Mount

variable {C : List Nat} {m m' : Mount} {ino : Nat} {raw raw' : RawInode} {inode : Inode} (cfg : Config) {fs : Fs}
  {t : InodeTable} {x : Nat}

theorem newInode_redated {desc : InodeDesc} {dtime : Dtime}
    (h : newInode cfg ino { desc with dtime := dtime } = .ok inode) :
    ∃ inode0, newInode cfg ino desc = .ok inode0 ∧ inode.tree = inode0.tree ∧
      inode.desc = { desc with dtime := dtime } ∧ inode0.desc = desc := by
  unfold newInode at h ⊢
  rw [show treeOf { desc with dtime := dtime } = treeOf desc from rfl] at h
  cases htree : treeOf desc with
  | error e =>
    rw [htree] at h
    cases h
  | ok tree =>
    rw [htree] at h
    cases h
    exact ⟨_, rfl, rfl, rfl, rfl⟩

theorem fromRawLive_alike (h : raw.Alike raw') (hload : fromRawLive cfg ino raw' = .ok inode) :
    ∃ inode0, fromRawLive cfg ino raw = .ok inode0 ∧ inode.tree = inode0.tree ∧
      inode.desc.size = inode0.desc.size := by
  unfold fromRawLive at hload ⊢
  rw [h.tryFrom] at hload
  cases htry : InodeDesc.tryFrom raw with
  | error e =>
    rw [htry] at hload
    cases hload
  | ok desc =>
    rw [htry] at hload
    obtain ⟨inode0, hnew, htree, hdesc, hdesc0⟩ := newInode_redated cfg hload
    exact ⟨inode0, hnew, htree, by rw [hdesc, hdesc0]⟩

theorem fromRawForRecovery_alike (h : raw.Alike raw') (hload : fromRawForRecovery cfg ino raw' = .ok inode) :
    inode.desc.linkCount = 0 ∧ ∃ inode0, fromRawForRecovery cfg ino raw = .ok inode0 ∧ inode.tree = inode0.tree := by
  unfold fromRawForRecovery at hload ⊢
  rw [(h.put (f := .linkCount) (v := le 2 1) rfl).tryFrom] at hload
  cases htry : InodeDesc.tryFrom (rawInode.put raw .linkCount (le 2 1)) with
  | error e =>
    rw [htry] at hload
    cases hload
  | ok desc =>
    rw [htry] at hload
    have hload : newInode cfg ino { { desc with linkCount := 0 } with
        dtime := .time (.fromSecs (rawInode.num (rawInode.put raw' .linkCount (le 2 1)) .dtime)) } = .ok inode := hload
    obtain ⟨inode0, hnew, htree, hdesc, -⟩ := newInode_redated cfg hload
    exact ⟨by rw [hdesc], inode0, hnew, htree⟩

structure Orphaned (fs : Fs) (ino : Nat) (raw : RawInode) (extents : List Extent) (external : List Nat) : Prop where
  allocated : fs.isInodeAllocated ino = true
  shows : ∀ raw', fs.SlotShows cfg.table ino raw' → raw.Alike raw'
  deleted : rawInode.num raw .linkCount = 0 → ∀ inode, fromRawForRecovery cfg ino raw = .ok inode →
    Rooted fs inode.tree extents external
  live : rawInode.num raw .linkCount ≠ 0 → ∀ inode, fromRawLive cfg ino raw = .ok inode →
    Rooted fs inode.tree extents external

theorem Orphaned.sweeps {P S : Nat → Prop} {O : List Nat} {fs' : Fs} {extents : List Extent} {external : List Nat}
    (h : Orphaned cfg fs ino raw extents external) (hs : fs.Sweeps cfg.table P S O fs') (hS : ¬S ino)
    (hO : ∀ b ∈ dataBlocks extents ++ external, b ∉ O) : Orphaned cfg fs' ino raw extents external where
  allocated := (hs.bits ino hS).trans h.allocated
  shows raw' hraw := by
    obtain ⟨raw0, hraw0, halike⟩ := hs.shows ino raw' hS hraw
    exact (h.shows raw0 hraw0).trans halike
  deleted hlinks inode hload := (h.deleted hlinks inode hload).sweeps hs hO
  live hlinks inode hload := (h.live hlinks inode hload).sweeps hs hO

theorem readRawInode_shows (h : fs.readRawInode t ino = .ok raw) :
    fs.SlotShows t ino raw := by
  unfold readRawInode readRaw at h
  split at h
  · cases h
  next slot hslot =>
    split at h
    · cases h
    next b hb =>
      cases h
      exact ⟨slot, b, hslot, .inl hb, rfl⟩

variable (H : Handles) {P : Nat → Prop} {extents : List Extent} {external : List Nat}

section

variable (hp : H.Paced) (hC : ∀ x ∈ m.chain, P x) (hmem : ino ∈ m.chain) (hrest : H.Rested m.fs) (hstays : m.Stays cfg.table fun _ => False) (ho : Orphaned cfg m.fs ino raw extents external)

include hp hC hmem hrest hstays ho

theorem reclaimScannedOrphan_sweeps (hlinks : rawInode.num raw .linkCount = 0) (rounds : Nat) (now : Duration) :
    (reclaimScannedOrphan H cfg ino rounds now).Ends m
      (fun done m' => done = true → H.Rested m'.fs ∧ m'.Stays cfg.table (fun _ => False) ∧ Finishes cfg.table
        P ino (dataBlocks extents ++ external) m m' ∧ Gone m' ino (dataBlocks extents ++ external))
      fun _ _ => True := by
  refine .bind_get ?_
  split
  · exact .ret nofun
  next raw' hraw' =>
  split
  · exact (Op.Ends.any _ m).bind fun _ _ _ => .ret nofun
  next inode' hload =>
  obtain ⟨hzero, inode0, hload0, htree⟩ :=
    fromRawForRecovery_alike cfg (ho.shows raw' (readRawInode_shows hraw')) hload
  have hroot : Rooted (m.setInode ino inode').fs inode'.tree extents external := by
    rw [htree]
    exact ho.deleted hlinks inode0 hload0
  have hloaded : (m.setInode ino inode').Stays cfg.table fun _ => False :=
    hstays.turns ⟨rfl, rfl, fun _ => rfl⟩ rfl
  refine .bind_modify ?_
  have hfirst := tryReclaimDeletedInode_sweeps (m := m.setInode ino inode') cfg H hp hC hmem hrest hloaded
    ho.allocated (setInode_self _ _ _) hzero hroot rounds now
  refine (Op.Ends.attempt (Q := fun res m1 => res.isOk = true → H.Rested m1.fs ∧ m1.Stays cfg.table (fun _ =>
    False) ∧ Finishes cfg.table P ino (dataBlocks extents ++ external) (m.setInode ino inode') m1 ∧ Gone m1
    ino (dataBlocks extents ++ external)) (hfirst.mono (fun _ _ h _ => h) fun _ _ _ => nofun)).bind
    fun res m1 h1 => ?_
  cases res with
  | error e => exact (Op.Ends.any _ m1).bind fun _ _ _ => .bind_modify (.ret nofun)
  | ok a =>
    obtain ⟨hrest1, hstays1, hfin, hgone⟩ := h1 rfl
    have hagain := tryReclaimDeletedInode_freed cfg H hgone.bit rounds now
    refine (Op.Ends.attempt (Q := fun _ m2 => m2 = m1) hagain).bind fun _ m2 hm => ?_
    subst hm
    refine .bind_modify (.ret fun _ => ⟨hrest1, hstays1.turns ⟨rfl, rfl, fun _ => rfl⟩ rfl,
      ⟨hfin.sweeps, fun x hx => ?_, hfin.chain⟩, hgone.bit, hgone.contains, hgone.blocks⟩)
    refine (Function.update_of_ne hx _ _).trans ?_
    rw [hfin.others x hx]
    exact setInode_of_ne _ _ hx

theorem retruncateScannedOrphan_sweeps (hlinks : rawInode.num raw .linkCount ≠ 0) (rounds : Nat) :
    (retruncateScannedOrphan H cfg ino rounds).Ends m
      (fun done m' => done = true → H.Rested m'.fs ∧ m'.Stays cfg.table (fun _ => False) ∧ Finishes cfg.table
        P ino (dataBlocks extents ++ external) m m' ∧ ∃ inode, fromRawLive cfg ino raw = .ok inode ∧ Cut
        cfg.table m' ino inode.desc.size (dataBlocks extents ++ external))
      fun _ _ => True := by
  refine .bind_get ?_
  split
  · exact .ret nofun
  next raw' hraw' =>
  split
  · exact .ret nofun
  next inode' hload =>
  obtain ⟨inode0, hload0, htree, hsize⟩ :=
    fromRawLive_alike cfg (ho.shows raw' (readRawInode_shows hraw')) hload
  have hroot : Rooted (m.setInode ino inode').fs inode'.tree extents external := by
    rw [htree]
    exact ho.live hlinks inode0 hload0
  have hloaded : (m.setInode ino inode').Stays cfg.table fun _ => False :=
    hstays.turns ⟨rfl, rfl, fun _ => rfl⟩ rfl
  refine .bind_modify ?_
  have hcut := retruncateTo_sweeps (m := m.setInode ino inode') cfg H hp hC (hC ino hmem) hrest hloaded
    (setInode_self _ _ _) hroot rounds
  refine (Op.Ends.attempt (Q := fun res m1 => res.isOk = true → H.Rested m1.fs ∧ m1.Stays cfg.table (fun _ =>
    False) ∧ Finishes cfg.table P ino (dataBlocks extents ++ external) (m.setInode ino inode') m1 ∧ Cut
    cfg.table m1 ino inode'.desc.size (dataBlocks extents ++ external)) (hcut.mono (fun _ _ h _ => h) fun _ _
    _ => nofun)).bind fun res m1 h1 => ?_
  cases res with
  | error e => exact (Op.Ends.any _ m1).bind fun _ _ _ => .ret nofun
  | ok a =>
    obtain ⟨hrest1, hstays1, hfin, hcut⟩ := h1 rfl
    refine Op.Ends.bind (Q := fun _ m2 => m2 = m1) (.when (fun hno => by cases hno) fun _ => rfl)
      fun _ m2 hm => .ret fun _ => ?_
    subst hm
    refine ⟨hrest1, hstays1, ⟨hfin.sweeps, fun x hx => ?_, hfin.chain⟩, inode0, hload0, hsize ▸ hcut⟩
    exact (hfin.others x hx).trans (setInode_of_ne _ _ hx)

end

structure Census where
  raw : Nat → RawInode
  extents : Nat → List Extent
  external : Nat → List Nat

namespace Census

def blocks (census : Census) (x : Nat) : List Nat := dataBlocks (census.extents x) ++ census.external x

def links (census : Census) (x : Nat) : Nat := rawInode.num (census.raw x) .linkCount

def attributeBlock (census : Census) (x : Nat) : Nat := (InodeDesc.ofRaw (census.raw x) .file).fileAcl

def owned (census : Census) (x : Nat) : List Nat :=
  census.blocks x ++ if census.attributeBlock x = 0 then [] else [census.attributeBlock x]

end Census

variable (census : Census)

def Settled (m : Mount) (x : Nat) : Prop :=
  (census.links x = 0 → Gone m x (census.blocks x)) ∧
  (census.links x ≠ 0 → ∃ inode, fromRawLive cfg x (census.raw x) = .ok inode ∧
    Cut cfg.table m x inode.desc.size (census.blocks x))

structure Underway (C : List Nat) (m₀ : Mount) (todo : List Nat) (m : Mount) : Prop where
  rested : H.Rested m.fs
  stays : m.Stays cfg.table fun _ => False
  chain : ∀ x, x ∈ m.chain ↔ x ∈ todo
  nodup : todo.Nodup
  within : ∀ x ∈ todo, x ∈ C
  sweeps : m₀.fs.Sweeps cfg.table (· ∈ C) (· ∈ C) (C.flatMap census.blocks) m.fs
  others : ∀ x, x ∉ C → m.inodes x = m₀.inodes x
  waiting : ∀ x ∈ todo, Orphaned cfg m.fs x (census.raw x) (census.extents x) (census.external x)
  settled : ∀ x ∈ C, x ∉ todo → Settled cfg census m x

variable {m₀ : Mount} {todo rest : List Nat}

theorem Settled.finishes {y : Nat} (h : Settled cfg census m x) (hne : x ≠ y)
    (hf : Finishes cfg.table P y (census.blocks y) m m') (hapart : ∀ b ∈ census.blocks x, b ∉ census.blocks y) :
    Settled cfg census m' x := by
  refine ⟨fun hlinks => (h.1 hlinks).sweeps hf.sweeps hne hapart, fun hlinks => ?_⟩
  obtain ⟨inode, hload, hcut⟩ := h.2 hlinks
  exact ⟨inode, hload, hcut.sweeps hf.sweeps hne hapart (hf.others x hne)⟩

theorem Underway.finish (h : Underway cfg H census C m₀ (x :: rest) m)
    (hapart : ∀ y ∈ C, ∀ z ∈ C, y ≠ z → ∀ b ∈ census.blocks y, b ∉ census.blocks z) (hrest : H.Rested m'.fs)
    (hstays : m'.Stays cfg.table fun _ => False) (hfin : Finishes cfg.table (· ∈ C) x (census.blocks x) m m')
    (hset : Settled cfg census m' x) :
    Underway cfg H census C m₀ rest m' := by
  obtain ⟨hx, hnodup⟩ := nodup_cons.mp h.nodup
  have hxC := h.within x mem_cons_self
  have hlater : ∀ y ∈ rest, y ≠ x := fun y hy heq => hx (heq ▸ hy)
  refine ⟨hrest, hstays, fun y => ?_, hnodup, fun y hy => h.within y (mem_cons_of_mem x hy), ?_,
    fun y hy => ?_, fun y hy => ?_, fun y hy hn => ?_⟩
  · rw [hfin.chain, h.stays.mirrors.nodup.mem_erase_iff, h.chain, mem_cons]
    refine ⟨fun hy => hy.2.resolve_left hy.1, fun hy => ⟨hlater y hy, .inr hy⟩⟩
  · refine h.sweeps.trans (hfin.sweeps.mono (fun y hy => ?_) fun b hb => mem_flatMap.mpr ⟨x, hxC, hb⟩)
    rw [hy]
    exact hxC
  · rw [hfin.others y fun heq => hy (heq ▸ hxC)]
    exact h.others y hy
  · have hyC := h.within y (mem_cons_of_mem x hy)
    exact (h.waiting y (mem_cons_of_mem x hy)).sweeps cfg hfin.sweeps (hlater y hy)
      (hapart y hyC x hxC (hlater y hy))
  · by_cases heq : y = x
    · rw [heq]
      exact hset
    · have hdone := h.settled y hy fun hmem => (mem_cons.mp hmem).elim heq hn
      exact hdone.finishes cfg census heq hfin (hapart y hy x hxC heq)

theorem finishEach_ends {R : List Nat → Mount → Prop} {step : Nat → MountOp Bool} {inos : List Nat}
    (hstep : ∀ x ∈ inos, ∀ rest m, R (x :: rest) m →
      (step x).Ends m (fun done m' => done = true → R rest m') fun _ _ => True)
    (h : R (inos ++ rest) m) :
    (finishEach step inos).Ends m (fun done m' => done = true → R rest m') fun _ _ => True := by
  induction inos generalizing m with
  | nil => exact .ret fun _ => h
  | cons x inos ih =>
    refine (hstep x mem_cons_self _ m h).bind fun done m1 h1 => ?_
    cases done with
    | false => exact (Op.Ends.any _ m1).bind fun _ _ _ => .ret nofun
    | true =>
      refine (ih (fun y hy => hstep y (mem_cons_of_mem x hy)) (h1 rfl)).bind fun others m2 h2 => .ret fun hall => ?_
      exact h2 (by simpa using hall)

structure Awaits (C : List Nat) (m : Mount) : Prop where
  rested : H.Rested m.fs
  idle : m.chain = []
  stays : { m with chain := C }.Stays cfg.table fun _ => False
  inRange : ∀ x ∈ C, m.fs.inRange x
  orphaned : ∀ x ∈ C, Orphaned cfg m.fs x (census.raw x) (census.extents x) (census.external x)
  readable : ∀ x ∈ C, m.fs.readRawInode cfg.table x = .ok (census.raw x)
  newest : ∀ x ∈ C, m.fs.slotImage cfg.table x = some (census.raw x)
  apart : ∀ x ∈ C, ∀ y ∈ C, x ≠ y → ∀ b ∈ census.blocks x, b ∉ census.blocks y

theorem orphanCursor_code (hpos : ∀ x ∈ todo, 0 < x) :
    orphanCursor (orphanCode todo.head?) = todo.head? := by
  cases todo with
  | nil => rfl
  | cons x todo => exact if_neg (Nat.pos_iff_ne_zero.mp (hpos x mem_cons_self))

namespace Awaits

variable {cfg H census} {scan : OrphanScan}

section

variable (h : Awaits cfg H census C m)

include h

theorem pos (hx : x ∈ C) : 0 < x := (h.stays.mirrors.range x hx).1

theorem walkFrom_chain {done : List Nat} {fuel : Nat} {result : OrphanScan} (hC : C = done ++ todo)
    (hlinks : todo.Threaded orphanCode (m.fs.nextOrphan cfg.table) fun _ => False) (hchain : scan.chain = done)
    (hclean : scan.suspect = false) (hrun : m.fs.walkFrom cfg.table fuel scan todo.head? = some result) :
    result.chain = C ∧ result.suspect = false := by
  induction todo generalizing done fuel scan with
  | nil =>
    have hstop : m.fs.walkFrom cfg.table fuel scan none = some scan := by cases fuel <;> rfl
    cases hstop.symm.trans hrun
    exact ⟨by rw [hchain, hC, append_nil], hclean⟩
  | cons x todo ih =>
    have hx : x ∈ C := hC ▸ mem_append_right done mem_cons_self
    have hnew : x ∉ scan.chain := by
      have hnodup := h.stays.mirrors.nodup
      change C.Nodup at hnodup
      rw [hC] at hnodup
      rw [hchain]
      exact fun hmem => (nodup_append.mp hnodup).2.2 x hmem x mem_cons_self rfl
    have hnext : orphanCursor (rawInode.num (census.raw x) .dtime) = todo.head? := by
      have hcode := hlinks.1 not_false
      rw [nextOrphan, h.newest x hx] at hcode
      have hcode : rawInode.num (census.raw x) .dtime = orphanCode todo.head? := Option.some.inj hcode
      rw [hcode]
      exact orphanCursor_code fun y hy => h.pos (hC ▸ mem_append_right done (mem_cons_of_mem x hy))
    cases fuel with
    | zero => cases hrun
    | succ fuel =>
      have hgood : ¬(¬m.fs.inRange x ∨ x ∈ scan.chain ∨ m.fs.isInodeAllocated x = false) := by
        simp [h.inRange x hx, hnew, (h.orphaned x hx).allocated]
      rw [head?_cons, walkFrom, if_neg hgood, h.readable x hx] at hrun
      dsimp only at hrun
      rw [hnext] at hrun
      have hsplit : C = (done ++ [x]) ++ todo := by
        rw [hC, append_assoc]
        rfl
      refine ih hsplit hlinks.2 ?_ ?_ hrun
      · unfold OrphanScan.push
        split
        · exact congrArg (· ++ [x]) hchain
        · exact congrArg (· ++ [x]) hchain
      · unfold OrphanScan.push
        split
        · exact hclean
        · exact hclean

theorem scanned
    (hwalk : m.fs.walkOrphanChain cfg.table = some scan) : scan.chain = C ∧ scan.suspect = false := by
  unfold walkOrphanChain at hwalk
  have hfirst : m.fs.sb.lastOrphan = C.head? := h.stays.mirrors.first
  rw [hfirst] at hwalk
  exact h.walkFrom_chain (nil_append C).symm h.stays.mirrors.links rfl rfl hwalk

theorem diskLinks (hx : x ∈ C) :
    m.fs.diskLinks cfg.table x = some (census.links x) := by
  rw [Fs.diskLinks, h.readable x hx]
  rfl

theorem underway (hperm : todo.Perm C) :
    Underway cfg H census C m todo { m with chain := C } where
  rested := h.rested
  stays := h.stays
  chain _ := hperm.mem_iff.symm
  nodup := hperm.nodup_iff.mpr h.stays.mirrors.nodup
  within _ hx := hperm.mem_iff.mp hx
  sweeps := .refl h.stays.moored.tabled
  others _ _ := rfl
  waiting x hx := h.orphaned x (hperm.mem_iff.mp hx)
  settled _ hx hn := absurd (hperm.mem_iff.mpr hx) hn

end

end Awaits

theorem recoverOrphanList_settles (hp : H.Paced) (h : Awaits cfg H census C m) (rounds : Nat) (now : Duration) :
    (recoverOrphanList H cfg rounds now).Ends m
      (fun suspect m' => suspect = false → m'.chain = [] ∧ m'.fs.headOrphan = some 0 ∧ (∀ x ∈ C, Settled cfg
        census m' x) ∧ m.fs.Sweeps cfg.table (· ∈ C) (· ∈ C) (C.flatMap census.blocks) m'.fs ∧ ∀ x, x ∉ C →
        m'.inodes x = m.inodes x)
      fun _ _ => True := by
  have hfirst : m.fs.sb.lastOrphan = C.head? := h.stays.mirrors.first
  have hend : ∀ {m' : Mount}, Underway cfg H census C m [] m' →
      m'.chain = [] ∧ m'.fs.sb.lastOrphan = none ∧ m'.fs.headOrphan = some 0 := by
    intro m' hu
    have hchain : m'.chain = [] := eq_nil_iff_forall_not_mem.mpr fun x hx =>
      not_mem_nil ((hu.chain x).mp hx)
    have hlast : m'.fs.sb.lastOrphan = none := by rw [hu.stays.mirrors.first, hchain]; rfl
    refine ⟨hchain, hlast, ?_⟩
    rw [hu.stays.mirrors.head, hlast]
    rfl
  have hfinal : ∀ {m' : Mount}, Underway cfg H census C m [] m' →
      m'.chain = [] ∧ m'.fs.headOrphan = some 0 ∧ (∀ x ∈ C, Settled cfg census m' x) ∧
        m.fs.Sweeps cfg.table (· ∈ C) (· ∈ C) (C.flatMap census.blocks) m'.fs ∧
        ∀ x, x ∉ C → m'.inodes x = m.inodes x := fun hu =>
    ⟨(hend hu).1, (hend hu).2.2, fun x hx => hu.settled x hx not_mem_nil, hu.sweeps, hu.others⟩
  refine .bind_get ?_
  split
  next hnone =>
    refine .ret fun _ => ?_
    have hC : C = [] := by
      rw [hfirst] at hnone
      simpa using hnone
    have hu : Underway cfg H census C m [] { m with chain := C } := h.underway (hC ▸ .nil)
    have hsame : ({ m with chain := C } : Mount) = m := by rw [hC, ← h.idle]
    rw [hsame] at hu
    exact hfinal hu
  · obtain ⟨scan, hwalk, hscan⟩ := m.fs.walkOrphanChain_stops cfg.table
    rw [hwalk]
    obtain ⟨hchain, hclean⟩ := h.scanned hwalk
    have hfree : ∀ x ∈ scan.toFree, census.links x = 0 := fun x hx => by
      rw [hscan.toFree, mem_filter, hchain] at hx
      have hlinks := hx.2
      rw [h.diskLinks hx.1] at hlinks
      simpa using hlinks
    have hkeep : ∀ x ∈ scan.toRetruncate, census.links x ≠ 0 := fun x hx => by
      rw [hscan.toRetruncate, mem_filter, hchain] at hx
      have hlinks := hx.2
      rw [h.diskLinks hx.1] at hlinks
      simpa using hlinks
    have hperm : (scan.toFree ++ scan.toRetruncate).Perm C := by
      rw [hscan.toFree, hscan.toRetruncate, ← hchain]
      simp only [ne_eq, decide_not]
      exact filter_append_perm _ _
    refine .bind_modify ?_
    rw [hchain]
    have hreclaim : (finishEach (fun ino => reclaimScannedOrphan H cfg ino rounds now) scan.toFree).Ends
        { m with chain := C }
        (fun done m' => done = true → Underway cfg H census C m scan.toRetruncate m') fun _ _ => True := by
      refine finishEach_ends (R := Underway cfg H census C m) (fun x hx rest m1 hu => ?_) (h.underway hperm)
      have hmem : x ∈ m1.chain := (hu.chain x).mpr mem_cons_self
      have hin : ∀ y ∈ m1.chain, y ∈ C := fun y hy => hu.within y ((hu.chain y).mp hy)
      refine (reclaimScannedOrphan_sweeps cfg H hp hin hmem hu.rested hu.stays (hu.waiting x mem_cons_self)
        (hfree x hx) rounds now).mono (fun done m2 h2 hdone => ?_) fun _ _ h => h
      obtain ⟨hrest, hstays, hfin, hgone⟩ := h2 hdone
      exact hu.finish cfg H census h.apart hrest hstays hfin ⟨fun _ => hgone, fun hn => absurd (hfree x hx) hn⟩
    have hretruncate : ∀ {m1 : Mount}, Underway cfg H census C m scan.toRetruncate m1 →
        (finishEach (fun ino => retruncateScannedOrphan H cfg ino rounds) scan.toRetruncate).Ends m1
          (fun done m' => done = true → Underway cfg H census C m [] m') fun _ _ => True := by
      intro m1 hu
      refine finishEach_ends (R := Underway cfg H census C m) (fun x hx rest m2 hu => ?_)
        (by rw [append_nil]; exact hu)
      have hmem : x ∈ m2.chain := (hu.chain x).mpr mem_cons_self
      have hin : ∀ y ∈ m2.chain, y ∈ C := fun y hy => hu.within y ((hu.chain y).mp hy)
      refine (retruncateScannedOrphan_sweeps cfg H hp hin hmem hu.rested hu.stays (hu.waiting x mem_cons_self)
        (hkeep x hx) rounds).mono (fun done m3 h3 hdone => ?_) fun _ _ h => h
      obtain ⟨hrest, hstays, hfin, hcut⟩ := h3 hdone
      exact hu.finish cfg H census h.apart hrest hstays hfin ⟨fun hz => absurd hz (hkeep x hx), fun _ => hcut⟩
    refine hreclaim.bind fun freed m1 h1 => ?_
    cases freed with
    | false =>
      refine (Op.Ends.any _ m1).bind fun truncated m2 _ => .bind_get ?_
      exact (Op.Ends.any _ m2).bind fun _ _ _ => .ret fun hno => by simp at hno
    | true =>
      refine (hretruncate (h1 rfl)).bind fun truncated m2 h2 => .bind_get ?_
      cases truncated with
      | false => exact (Op.Ends.any _ m2).bind fun _ _ _ => .ret fun hno => by simp at hno
      | true =>
        have hu := h2 rfl
        refine Op.Ends.bind (Q := fun _ m3 => m3 = m2) (.when (fun hsome => ?_) fun _ => rfl) fun _ m3 hm => .ret fun _ => ?_
        · simp [hclean, (hend hu).2.1] at hsome
        · rw [hm]
          exact hfinal hu

structure Recovered (C : List Nat) (m m' : Mount) : Prop where
  freed : ∀ x ∈ C, census.links x = 0 →
    m'.fs.isInodeAllocated x = false ∧ ∀ b ∈ census.owned x, m'.fs.blockUsed b = false
  truncated : ∀ x ∈ C, census.links x ≠ 0 → ∃ loaded inode tree, fromRawLive cfg x (census.raw x) = .ok loaded ∧
    m'.inodes x = some inode ∧ inode.desc.size = loaded.desc.size ∧ inode.tree = some tree ∧
    (∀ n, blocksOf inode.desc.size ≤ n → tree.lookup n m'.fs = (.ok none, m'.fs)) ∧
    ∃ raw, m'.fs.slotImage cfg.table x = some raw ∧ raw.rootBlock = tree.root
  unlisted : ∀ x, x ∉ C → m'.inodes x = m.inodes x ∧
    m'.fs.slotImage cfg.table x = m.fs.slotImage cfg.table x ∧
    m'.fs.isInodeAllocated x = m.fs.isInodeAllocated x
  blocks : ∀ b, m.fs.layout.Contains b → b ∉ C.flatMap census.owned →
    m'.fs.blockUsed b = m.fs.blockUsed b ∧
    (¬m.fs.Guarded b → m.fs.blockUsed b = true → m'.fs.image b = m.fs.image b)
  chain : m'.chain = []
  head : m'.fs.headOrphan = some 0

theorem Cut.lookup_none {size : Nat} {old : List Nat} (h : Cut t m x size old) :
    ∃ inode tree, m.inodes x = some inode ∧ inode.desc.size = size ∧ inode.tree = some tree ∧
      (∀ n, blocksOf inode.desc.size ≤ n → tree.lookup n m.fs = (.ok none, m.fs)) ∧
      ∃ raw, m.fs.slotImage t x = some raw ∧ raw.rootBlock = tree.root := by
  obtain ⟨inode, tree, extents, external, hino, hsize, htree, hplant, -, hkeys, hslot⟩ := h.tree
  refine ⟨inode, tree, hino, hsize, htree, fun n hn => ?_, hslot⟩
  rw [lookup_eq hplant.shaped hplant.ordered n]
  have hnone : extents.find? (fun e => e.covers n) = none := by
    refine find?_eq_none.mpr fun e he hcover => ?_
    have hin : e.block ≤ n ∧ n < e.block + e.len := by simpa [Extent.covers] using hcover
    have hmem : (n, e.start + (n - e.block), e.kind) ∈ contents extents :=
      mem_contents_iff.mpr ⟨e, he, hin.1, hin.2, rfl, rfl⟩
    have hbelow := of_decide_eq_true (hkeys _ hmem)
    rw [← hsize] at hbelow
    exact absurd hbelow (not_lt.mpr hn)
  rw [hnone]

def orphanRaw (fileAcl : Nat) : RawInode :=
  rawInode.put ((sampleDesc .file 0).toRawInode ExtentTree.empty.root) .fileAclLo (le 4 fileAcl)

def orphanVolume (fileAcl : Nat) : Mount :=
  let m := sampleMount 20 [12]
    (fun b =>
      if b = 0 then some (some ((sampleVolume 20).sb.patchInto
        (some 12) (zeros _)))
      else if b = 4 then some (some ((orphanRaw fileAcl).intoBlock (11 * 256) (zeros _)))
      else none)
    fun _ => none
  { m with chain := [], fs := { m.fs with handle := none } }

def orphanCensus (fileAcl : Nat) : Census := ⟨fun _ => orphanRaw fileAcl, fun _ => [], fun _ => []⟩

theorem orphanVolume_reads :
    (orphanVolume 0).fs.headOrphan = some 12 ∧ (orphanVolume 0).fs.nextOrphan sampleTable 12 = some 0 ∧
      rawInode.num (orphanRaw 0) .linkCount = 0 ∧ (orphanCensus 0).attributeBlock 12 = 0 := by
  decide +kernel

theorem orphanVolume_slot : (orphanVolume 0).fs.inodeSlot sampleTable 12 = .ok ⟨4, 11 * 256⟩ := by
  decide

theorem orphanVolume_shows (h : (orphanVolume 0).fs.SlotShows sampleTable 12 raw) :
    raw = orphanRaw 0 := by
  obtain ⟨slot, block, hslot, hshow, rfl⟩ := h
  rw [orphanVolume_slot] at hslot
  cases hslot
  have hblock : block = (orphanRaw 0).intoBlock (11 * 256) (zeros _) := by
    rcases hshow with hshow | hshow | hshow
    · exact (Option.some.inj hshow).symm
    · cases hshow
    · exact (Option.some.inj hshow).symm
  rw [hblock]
  exact RawInode.ofBlock_intoBlock _ _ (by decide)

theorem joined_paced : joined.Paced where
  beginOp _ := .modify fun _ => ⟨rfl, rfl, fun _ _ h => .inl h, fun _ _ h => .inr (.inl h)⟩
  restart _ := .of_ends fun _ => .ret ⟨rfl, rfl, fun _ _ h => .inl h, fun _ _ h => .inr (.inl h)⟩
  close := .modify fun _ => ⟨rfl, rfl, fun _ _ h => .inl h, fun _ _ h => .inr (.inl h)⟩

theorem orphanVolume_rooted (h : fromRawForRecovery sampleConfig 12 (orphanRaw 0) = .ok inode) :
    Rooted (orphanVolume 0).fs inode.tree [] [] := by
  have heval : (fromRawForRecovery sampleConfig 12 (orphanRaw 0)).map (fun i => i.tree.map fun t =>
      (slice t.root 0 60, t.sectorCount)) = .ok (some (slice ExtentTree.empty.root 0 60, 0)) := by decide +kernel
  rw [h] at heval
  refine ⟨fun tree htree => ?_, fun _ => rfl⟩
  rw [Except.map, htree] at heval
  have hpair := Option.some.inj (Except.ok.inj heval)
  have hroot : tree.root = ExtentTree.empty.root := by
    funext i
    have hi := map_inj_left.mp (congrArg Prod.fst hpair) i.val (mem_range.mpr i.isLt)
    simpa [byteAt] using hi
  have hnil {p : Nat → Prop} : ∀ b ∈ dataBlocks [], p b := forall_mem_nil _
  refine ⟨?_, ⟨by simp, .nil⟩, .nil, ⟨.nil, hnil, hnil, hnil⟩, hnil, congrArg Prod.snd hpair⟩
  rw [hroot]
  exact .inline (by decide) (holds_inlineLeafRoot (by simp) (by decide))

theorem orphanVolume_mirrors : { orphanVolume 0 with chain := [12] }.Mirrors sampleTable fun _ => False where
  nodup := nodup_singleton 12
  range := by
    change ∀ ino ∈ [12], 0 < ino ∧ ino < 2 ^ 32
    decide
  first := rfl
  head := orphanVolume_reads.1
  links := ⟨fun _ => orphanVolume_reads.2.1, trivial⟩

theorem orphanVolume_awaits : Awaits sampleConfig joined (orphanCensus 0) [12] (orphanVolume 0) where
  rested := ⟨rfl, _, _, rfl, .inr rfl, rfl⟩
  idle := rfl
  stays := ⟨(sampleMount_moored 20 [12] _ fun _ => none).turns ⟨rfl, rfl, fun _ => rfl⟩, orphanVolume_mirrors⟩
  inRange := by decide
  orphaned x hx := by
    cases mem_singleton.mp hx
    refine ⟨by decide, fun raw' h => ?_, fun _ inode hload => orphanVolume_rooted hload,
      fun hlive => absurd orphanVolume_reads.2.2.1 hlive⟩
    rw [orphanVolume_shows h]
    exact .refl _
  readable x hx := by
    cases mem_singleton.mp hx
    rw [readRawInode]
    dsimp only [sampleConfig]
    rw [orphanVolume_slot]
    exact congrArg Except.ok (RawInode.ofBlock_intoBlock _ _ (by decide))
  newest x hx := by
    cases mem_singleton.mp hx
    refine (slotImage_ok orphanVolume_slot).trans ?_
    exact congrArg some (RawInode.ofBlock_intoBlock _ _ (by decide))
  apart _ _ _ _ _ _ hb := absurd hb not_mem_nil

theorem orphanVolume_recovered : (recoverOrphanList joined sampleConfig 1 .zero (orphanVolume 0)).1 = .ok false := by
  decide +kernel

theorem orphanCensus_plain :
    ∀ x ∈ [12], (orphanCensus 0).links x = 0 → (orphanCensus 0).attributeBlock x = 0 := by
  intro x hx _
  cases mem_singleton.mp hx
  exact orphanVolume_reads.2.2.2

end Mount

end Ext4
