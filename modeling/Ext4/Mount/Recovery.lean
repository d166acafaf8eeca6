import Ext4.Mount.Listing
import Ext4.Extent.Tends
import Ext4.Mount.Reclaim

namespace Ext4

open Bytes Op Fs List

variable {g : JournalGeometry}

structure OrphanScan where
  chain : List Nat
  toFree : List Nat
  toRetruncate : List Nat
  suspect : Bool

namespace OrphanScan

def empty : OrphanScan := ⟨[], [], [], false⟩

def push (scan : OrphanScan) (ino linkCount : Nat) : OrphanScan :=
  if linkCount = 0 then { scan with chain := scan.chain ++ [ino], toFree := scan.toFree ++ [ino] }
  else { scan with chain := scan.chain ++ [ino], toRetruncate := scan.toRetruncate ++ [ino] }

end OrphanScan

namespace Fs

variable (t : InodeTable) (fs : Fs)

def readRawInode (ino : Nat) : Except Fault RawInode :=
  match fs.inodeSlot t ino with
  | .error e => .error e
  | .ok slot => fs.readRaw slot

def inRange (ino : Nat) : Prop := fs.sb.firstIno ≤ ino ∧ ino ≤ fs.sb.inodesCount

instance (ino : Nat) : Decidable (fs.inRange ino) := inferInstanceAs (Decidable (_ ∧ _))

-- `none` when the walk has not stopped within the fuel
def walkFrom : Nat → OrphanScan → Option Nat → Option OrphanScan
  | _, scan, none => some scan
  | 0, _, some _ => none
  | fuel + 1, scan, some cur =>
    if ¬fs.inRange cur ∨ cur ∈ scan.chain ∨ fs.isInodeAllocated cur = false then
      some { scan with suspect := true }
    else
      match fs.readRawInode t cur with
      | .error _ => some { scan with suspect := true }
      | .ok raw =>
        walkFrom fuel (scan.push cur (rawInode.num raw .linkCount)) (orphanCursor (rawInode.num raw .dtime))

def walkOrphanChain : Option OrphanScan :=
  fs.walkFrom t (fs.sb.inodesCount + 1) .empty fs.sb.lastOrphan

end Fs

namespace Mount

variable (H : Handles) (cfg : Config)

def fromRawForRecovery (ino : Nat) (raw : RawInode) : Except Fault Inode :=
  match InodeDesc.tryFrom (rawInode.put raw .linkCount (le 2 1)) with
  | .error e => .error e
  | .ok desc => newInode cfg ino { desc with linkCount := 0 }

def fromRawLive (ino : Nat) (raw : RawInode) : Except Fault Inode :=
  match InodeDesc.tryFrom raw with
  | .error e => .error e
  | .ok desc => newInode cfg ino desc

def insertInode (ino : Nat) (inode : Inode) : MountOp Unit := Op.modify fun m => m.setInode ino inode

-- the scanned inode never enters the cache, which is as before when it is dropped
def restoreInode (ino : Nat) (cached : Option Inode) : MountOp Unit := Op.modify fun m =>
  { m with inodes := Function.update m.inodes ino cached }

def reclaimScannedOrphan (ino rounds : Nat) (now : Duration) : MountOp Bool := do
  let m ← Op.get
  match m.fs.readRawInode cfg.table ino with
  | .error _ => Op.ret false
  | .ok raw =>
    match fromRawForRecovery cfg ino raw with
    | .error _ => do
      let _ ← Op.attempt (orphanDel cfg ino)
      Op.ret false
    | .ok inode => do
      insertInode ino inode
      let res ← Op.attempt (tryReclaimDeletedInode H cfg ino rounds now)
      let _ ← Op.attempt (tryReclaimDeletedInode H cfg ino rounds now)
      restoreInode ino (m.inodes ino)
      Op.ret res.isOk

def retruncateScannedOrphan (ino rounds : Nat) : MountOp Bool := do
  let m ← Op.get
  match m.fs.readRawInode cfg.table ino with
  | .error _ => Op.ret false
  | .ok raw =>
    match fromRawLive cfg ino raw with
    | .error _ => Op.ret false
    | .ok inode => do
      insertInode ino inode
      let res ← Op.attempt (retruncateTo H cfg ino inode.desc.size rounds)
      Op.when (res.isOk = false) (restoreInode ino (m.inodes ino))
      Op.ret res.isOk

def clearOrphanHead : MountOp Unit := do
  let _ ← Op.attempt (during H Fs.fsyncCredits do
    let m ← Op.get
    onFs (Fs.capturePatch cfg.geometry SuperBlock.superblockBid (m.fs.sb.patchInto none))
    Op.modify fun m => { m with fs := m.fs.withHead none, chain := [] })
  Op.ret ()

def finishEach (step : Nat → MountOp Bool) : List Nat → MountOp Bool
  | [] => Op.ret true
  | ino :: rest => do
    let done ← step ino
    let others ← finishEach step rest
    Op.ret (done && others)

-- never fails the mount; the result is the flag that made the source clear the head
def recoverOrphanList (rounds : Nat) (now : Duration) : MountOp Bool := do
  let m ← Op.get
  if m.fs.sb.lastOrphan.isNone then Op.ret false
  else
    match m.fs.walkOrphanChain cfg.table with
    | none => Op.fail truncateUnfinished
    | some scan => do
      Op.modify fun m => { m with chain := scan.chain }
      let freed ← finishEach (fun ino => reclaimScannedOrphan H cfg ino rounds now) scan.toFree
      let truncated ← finishEach (fun ino => retruncateScannedOrphan H cfg ino rounds) scan.toRetruncate
      let suspect := scan.suspect || !freed || !truncated
      let m ← Op.get
      Op.when (suspect ∨ m.fs.sb.lastOrphan.isSome) (clearOrphanHead H cfg)
      Op.ret suspect

end Mount

section Walk

variable {t : InodeTable} {fs : Fs} {scan : OrphanScan}

def Fs.diskLinks (t : InodeTable) (fs : Fs) (ino : Nat) : Option Nat :=
  (fs.readRawInode t ino).toOption.map fun raw => rawInode.num raw .linkCount

structure OrphanScan.Surveys (t : InodeTable) (fs : Fs) (scan : OrphanScan) : Prop where
  nodup : scan.chain.Nodup
  inRange : ∀ ino ∈ scan.chain, fs.inRange ino
  allocated : ∀ ino ∈ scan.chain, fs.isInodeAllocated ino = true
  readable : ∀ ino ∈ scan.chain, (fs.diskLinks t ino).isSome = true
  toFree : scan.toFree = scan.chain.filter fun ino => fs.diskLinks t ino = some 0
  toRetruncate : scan.toRetruncate = scan.chain.filter fun ino => fs.diskLinks t ino ≠ some 0

theorem Fs.isInodeAllocated_pos {ino : Nat} (h : fs.isInodeAllocated ino = true) :
    0 < ino ∧ ino ≤ fs.sb.inodesCount := by
  unfold isInodeAllocated findGroup at h
  split at h
  · cases h
  next hfind =>
    split at hfind
    · cases hfind
    split at hfind
    · cases hfind
    · omega

namespace OrphanScan.Surveys

theorem empty (t : InodeTable) (fs : Fs) : OrphanScan.empty.Surveys t fs :=
  ⟨.nil, nofun, nofun, nofun, rfl, rfl⟩

theorem flagged (h : scan.Surveys t fs) : ({ scan with suspect := true } : OrphanScan).Surveys t fs :=
  ⟨h.nodup, h.inRange, h.allocated, h.readable, h.toFree, h.toRetruncate⟩

theorem push (h : scan.Surveys t fs) {cur : Nat} {raw : RawInode} (hrange : fs.inRange cur)
    (hnew : cur ∉ scan.chain) (halloc : fs.isInodeAllocated cur = true) (hraw : fs.readRawInode t cur = .ok raw) :
    (scan.push cur (rawInode.num raw .linkCount)).Surveys t fs := by
  have hlinks : fs.diskLinks t cur = some (rawInode.num raw .linkCount) := by
    rw [diskLinks, hraw]
    rfl
  have hnodup : (scan.chain ++ [cur]).Nodup := by
    refine nodup_append.mpr ⟨h.nodup, nodup_singleton cur, fun x hx y hy => ?_⟩
    rw [mem_singleton.mp hy]
    exact fun heq => hnew (heq ▸ hx)
  have hall {p : Nat → Prop} (hold : ∀ x ∈ scan.chain, p x) (hcur : p cur) :
      ∀ x ∈ scan.chain ++ [cur], p x := by
    intro x hx
    rcases mem_append.mp hx with hx | hx
    · exact hold x hx
    · rw [mem_singleton.mp hx]
      exact hcur
  have hread : (fs.diskLinks t cur).isSome = true := by rw [hlinks]; rfl
  unfold OrphanScan.push
  split
  next hzero =>
    refine ⟨hnodup, hall h.inRange hrange, hall h.allocated halloc, hall h.readable hread, ?_, ?_⟩
    · simp [h.toFree, hlinks, hzero]
    · simp [h.toRetruncate, hlinks, hzero]
  next hlive =>
    refine ⟨hnodup, hall h.inRange hrange, hall h.allocated halloc, hall h.readable hread, ?_, ?_⟩
    · simp [h.toFree, hlinks, hlive]
    · simp [h.toRetruncate, hlinks, hlive]

theorem length_le (h : scan.Surveys t fs) : scan.chain.length ≤ fs.sb.inodesCount := by
  have hsub : scan.chain.toFinset ⊆ Finset.Icc 1 fs.sb.inodesCount := by
    intro x hx
    have hx := isInodeAllocated_pos (h.allocated x (mem_toFinset.mp hx))
    exact Finset.mem_Icc.mpr hx
  have hcard := Finset.card_le_card hsub
  rw [toFinset_card_of_nodup h.nodup, Nat.card_Icc] at hcard
  omega

end OrphanScan.Surveys

theorem OrphanScan.length_push (scan : OrphanScan) (ino linkCount : Nat) :
    (scan.push ino linkCount).chain.length = scan.chain.length + 1 := by
  unfold OrphanScan.push
  split <;> simp

theorem Fs.walkFrom_stops {fuel : Nat} {cursor : Option Nat} (h : scan.Surveys t fs)
    (hfuel : fs.sb.inodesCount < fuel + scan.chain.length) :
    ∃ result, fs.walkFrom t fuel scan cursor = some result ∧ result.Surveys t fs := by
  induction fuel generalizing scan cursor with
  | zero =>
    have := h.length_le
    omega
  | succ fuel ih =>
    cases cursor with
    | none => exact ⟨scan, rfl, h⟩
    | some cur =>
      unfold walkFrom
      split
      · exact ⟨_, rfl, h.flagged⟩
      next hgood =>
        obtain ⟨hrange, hnew, halloc⟩ : fs.inRange cur ∧ cur ∉ scan.chain ∧
            fs.isInodeAllocated cur = true := by
          simpa only [not_or, not_not, Bool.not_eq_false] using hgood
        split
        · exact ⟨_, rfl, h.flagged⟩
        next raw hraw =>
          refine ih (h.push hrange hnew halloc hraw) ?_
          rw [OrphanScan.length_push]
          omega

theorem Fs.walkOrphanChain_stops (t : InodeTable) (fs : Fs) :
    ∃ scan, fs.walkOrphanChain t = some scan ∧ scan.Surveys t fs :=
  fs.walkFrom_stops (.empty t fs) (Nat.lt_succ_self _)

end Walk

namespace Fs

variable {F : Nat → Prop} {fs fs' : Fs}

def Shows (fs : Fs) (b : Nat) (v : Block) : Prop :=
  fs.device b = some v ∨ fs.retained b = some v ∨ fs.image b = some v

structure Paces (fs fs' : Fs) : Prop where
  sb : fs'.sb = fs.sb
  groups : fs'.groups = fs.groups
  device : ∀ b v, fs'.device b = some v → fs.Shows b v
  retained : ∀ b v, fs'.retained b = some v → fs.Shows b v

structure Spares (F : Nat → Prop) (fs fs' : Fs) : Prop where
  inodesCount : fs'.sb.inodesCount = fs.sb.inodesCount
  inodesPerGroup : fs'.sb.inodesPerGroup = fs.sb.inodesPerGroup
  nrBlockGroups : fs'.sb.nrBlockGroups = fs.sb.nrBlockGroups
  inodes : ∀ x, ¬F x → fs'.isInodeAllocated x = fs.isInodeAllocated x

instance : IsPreorder Fs (Spares F) where
  refl _ := ⟨rfl, rfl, rfl, fun _ _ => rfl⟩
  trans _ _ _ h₁ h₂ :=
    { inodesCount := h₂.inodesCount.trans h₁.inodesCount
      inodesPerGroup := h₂.inodesPerGroup.trans h₁.inodesPerGroup
      nrBlockGroups := h₂.nrBlockGroups.trans h₁.nrBlockGroups
      inodes := fun x hx => (h₂.inodes x hx).trans (h₁.inodes x hx) }

theorem Tends.spares (h : fs.Tends F fs') : fs.Spares F fs' :=
  ⟨h.inodesCount, h.inodesPerGroup, h.nrBlockGroups, h.inodes⟩

theorem Spares.of_same (hcount : fs'.sb.inodesCount = fs.sb.inodesCount)
    (hper : fs'.sb.inodesPerGroup = fs.sb.inodesPerGroup)
    (hnr : fs'.sb.nrBlockGroups = fs.sb.nrBlockGroups) (hgroups : fs'.groups = fs.groups) :
    fs.Spares F fs' :=
  ⟨hcount, hper, hnr, fun x _ => isInodeAllocated_congr hcount hper hnr (fun _ => by rw [hgroups]) x⟩

theorem Still.spares (h : fs.Still fs') : fs.Spares F fs' := h.ebbs.tends.spares

theorem Paces.spares (h : fs.Paces fs') : fs.Spares F fs' :=
  .of_same (by rw [h.sb]) (by rw [h.sb]) (by rw [h.sb]) h.groups

theorem Spares.withHead (fs : Fs) (head : Option Nat) : fs.Spares F (fs.withHead head) :=
  .of_same rfl rfl rfl rfl

end Fs

structure Handles.Paced (H : Handles) : Prop where
  beginOp : ∀ n, Keeps Fs.Paces (H.beginOp n)
  restart : ∀ n, Keeps Fs.Paces (H.restart n)
  close : Keeps Fs.Paces H.close

namespace Mount

structure Spares (F S : Nat → Prop) (m m' : Mount) : Prop where
  fs : m.fs.Spares F m'.fs
  inodes : ∀ x, ¬S x → m'.inodes x = m.inodes x

instance {F S : Nat → Prop} : IsPreorder Mount (Spares F S) where
  refl m := ⟨refl_of _ m.fs, fun _ _ => rfl⟩
  trans _ _ _ h₁ h₂ := ⟨trans_of _ h₁.fs h₂.fs, fun x hx => (h₂.inodes x hx).trans (h₁.inodes x hx)⟩

section Frames

variable {F S : Nat → Prop} {α : Type} {ino : Nat} {H : Handles} (hp : H.Paced) (hS : S ino) (hF : F ino)
  (cfg : Config) {op : MountOp α}

theorem inodeSlot_modest {t : InodeTable} {fs : Fs} {ino : Nat} {e : Fault} (he : fs.inodeSlot t ino = .error e) :
    e.tooBig = false := by
  unfold inodeSlot at he
  split at he
  · cases he
    rfl
  · split at he
    · cases he
      rfl
    · cases he

theorem readInode_modest (ino : Nat) : Modest (readInode ino) := by
  refine .bind .get fun m => ?_
  cases m.inodes ino with
  | none => exact .fail rfl
  | some inode => exact .ret _

theorem ReadOnly.spares (h : ReadOnly op) : Keeps (Spares F S) op :=
  h.mono fun m _ heq => heq ▸ refl_of _ m

theorem onFs_spares {op : FsOp α} (h : Keeps (Fs.Spares F) op) : Keeps (Spares F S) (onFs op) :=
  .lift h fun _ _ h => ⟨h, fun _ _ => rfl⟩

theorem capturePatch_spares (bid : Nat) (f : Block → Block) :
    Keeps (Spares F S) (onFs (capturePatch g bid f)) :=
  onFs_spares (.mono (capturePatch_still g bid f) fun _ _ h => h.spares)

include hS in
theorem updateInode_spares (f : Inode → Inode) : Keeps (Spares F S) (updateInode ino f) := by
  refine .modify fun m => ⟨refl_of _ m.fs, fun x hx => ?_⟩
  exact mapInode_of_ne m f fun heq => hx (heq ▸ hS)

include hS in
theorem onTree_spares {op : TreeOp α} (h : Keeps (TreeFs.Along (Fs.Spares F)) op) :
    Keeps (Spares F S) (onTree ino op) := by
  intro m
  rcases onTree_cases m ino op with ⟨e, heq⟩ | ⟨inode, tree, -, -, heq⟩
  · rw [heq]
    exact refl_of _ m
  · rw [heq]
    exact ⟨h ⟨tree, m.fs⟩, fun x hx => setInode_of_ne _ _ fun heq => hx (heq ▸ hS)⟩

theorem Fs.writeDevice_spares (bid : Nat) (block : Block) : Keeps (Fs.Spares F) (writeDevice bid block) := by
  intro fs
  unfold writeDevice
  split
  · exact .of_same rfl rfl rfl rfl
  · exact refl_of _ fs

theorem writeBackInodeDesc_keeps {Q : Fs → Fs → Prop} [IsPreorder Fs Q] {R : Mount → Mount → Prop} [IsPreorder Mount R]
    (hstill : ∀ fs fs', fs.Still fs' → Q fs fs') (hdev : ∀ bid block, Keeps Q (writeDevice bid block))
    (hput : ∀ (m : Mount) fs, Q m.fs fs → R m { m with fs := fs }) (hedit : ∀ f, Keeps R (updateInode ino f)) :
    Tame R (writeBackInodeDesc cfg ino) := by
  have hread : Tame R (readInode ino) :=
    ⟨.mono (readInode_readOnly ino) fun m _ h => h ▸ refl_of R m, readInode_modest ino⟩
  refine .bind hread fun inode => ?_
  split
  · exact .ret ()
  refine .bind ⟨hedit _, .modify _⟩ fun _ => .bind hread fun inode => .bind .get fun m =>
    .bind (Obeys.lift (R := Q) (.bind .get fun fs => .bind (.ofExcept fun _ he => inodeSlot_modest he)
      fun slot => ?_) hput) fun _ => ⟨hedit _, .modify _⟩
  split
  · exact ⟨.mono (capturePatch_still _ _ _) hstill, capturePatch_modest _ _ _⟩
  · split
    · exact .fail rfl
    · exact ⟨hdev _ _, writeDevice_modest _ _⟩

include hS in
theorem writeBackInodeDesc_spares : Keeps (Spares F S) (writeBackInodeDesc cfg ino) :=
  (writeBackInodeDesc_keeps (Q := Fs.Spares F) cfg (fun _ _ h => h.spares) Fs.writeDevice_spares
    (fun _ _ h => ⟨h, fun _ _ => rfl⟩) (updateInode_spares hS)).1

theorem chain_spares (f : Mount → OrphanChain) :
    Keeps (Spares F S) (Op.modify fun m => { m with chain := f m } : MountOp Unit) :=
  .modify fun m => ⟨refl_of _ m.fs, fun _ _ => rfl⟩

theorem head_spares (head : Option Nat) (f : Mount → OrphanChain) :
    Keeps (Spares F S) (Op.modify fun m => { m with fs := m.fs.withHead head, chain := f m } : MountOp Unit) :=
  .modify fun m => ⟨.withHead m.fs head, fun _ _ => rfl⟩

theorem orphanAddIfAbsent_spares (x : Nat) : Keeps (Spares F S) (orphanAddIfAbsent cfg x) := by
  refine .bind .get fun m => ?_
  split
  · exact .ret ()
  split
  · exact .ret ()
  · refine .bind (.bind .get fun m => ?_) fun _ => .ret ()
    split
    · exact .ret none
    split
    · exact .ret _
    · exact .bind (capturePatch_spares _ _) fun _ => .bind (head_spares (some x) _) fun _ => .ret _

theorem orphanDel_spares (x : Nat) : Tame (Spares F S) (orphanDel cfg x) := by
  have hcap {bid f} : Tame (Fs.Spares F) (capturePatch cfg.geometry bid f) :=
    ⟨.mono (capturePatch_still _ _ _) fun _ _ h => h.spares, capturePatch_modest _ _ _⟩
  have hput (m : Mount) fs (h : m.fs.Spares F fs) : m.Spares F S { m with fs := fs } := ⟨h, fun _ _ => rfl⟩
  refine .bind .get fun m => ?_
  split
  · exact .ret ()
  next splice _ =>
    cases splice with
    | head successor =>
      exact .bind (.lift hcap hput) fun _ => .bind ⟨head_spares successor _, .modify _⟩ fun _ =>
        ⟨chain_spares _, .modify _⟩
    | middle predecessor successor =>
      exact .bind (.lift (.bind .get fun fs => .bind (.ofExcept fun _ he => inodeSlot_modest he) fun slot => hcap) hput)
        fun _ => ⟨chain_spares _, .modify _⟩

theorem resizePageCache_readOnly (x newSize oldSize : Nat) : ReadOnly (resizePageCache x newSize oldSize) := by
  have hread {β : Type} {op : FsOp β} (h : Keeps (· = ·) op) : ReadOnly (onFs op) :=
    .lift (R := (· = ·)) h fun m fs heq => by rw [← heq]
  refine .bind (readInode_readOnly x) fun inode => ?_
  split
  · exact .fail _
  dsimp only
  split
  · exact .ret ()
  split
  · exact .fail _
  · refine .bind (.bind (readInode_readOnly x) fun inode => ?_) fun _ => .ret ()
    split
    · exact .fail _
    · exact .bind (hread (lookup_keeps _ _).1) fun _ => .ret _

include hp in
theorem during_spares {credits : Nat} (h : Keeps (Spares F S) op) :
    Keeps (Spares F S) (during H credits op) :=
  .bind (onFs_spares (.mono (hp.beginOp credits) fun _ _ h => h.spares)) fun _ => .bind (.attempt h) fun _ =>
    .bind (onFs_spares (.mono hp.close fun _ _ h => h.spares)) fun _ => .ofExcept _

include hp hS in
theorem truncateChunks_spares (newSize rounds : Nat) :
    Keeps (Spares F S) (truncateChunks H cfg ino newSize rounds) := by
  induction rounds with
  | zero => exact .fail _
  | succ rounds ih =>
    refine .bind (readInode_readOnly ino).spares fun inode => .bind .get fun m => ?_
    refine .bind (onTree_spares hS (.of_ends fun s => ?_)) fun chunk => ?_
    · exact (truncateChunk_tends _ _ _ s newSize _).both fun _ h => h.spares
    · split
      · exact .ret ()
      · exact .bind (writeBackInodeDesc_spares hS cfg) fun _ =>
          .bind (onFs_spares (.mono (hp.restart _) fun _ _ h => h.spares)) fun _ => ih

include hp hS in
theorem finishTruncate_spares (newSize rounds : Nat) :
    Keeps (Spares F S) (finishTruncate H cfg ino newSize rounds) :=
  .bind (truncateChunks_spares hp hS cfg newSize rounds) fun _ => .bind (orphanDel_spares cfg ino).1 fun _ =>
    writeBackInodeDesc_spares hS cfg

include hp hS in
theorem retruncateTo_spares (target rounds : Nat) :
    Keeps (Spares F S) (retruncateTo H cfg ino target rounds) := by
  refine .bind (updateInode_spares hS _) fun _ => ?_
  split
  · exact .fail _
  · exact .bind (needTree_readOnly ino).spares fun _ => .bind (readInode_readOnly ino).spares fun inode =>
      .bind .get fun m => during_spares hp (finishTruncate_spares hp hS cfg target rounds)

include hp hS hF in
theorem freeUnlinked_spares (rounds : Nat) : Keeps (Spares F S) (freeUnlinked H cfg ino rounds) := by
  refine .bind (readInode_readOnly ino).spares fun inode => ?_
  refine .bind (.when fun _ => truncateChunks_spares hp hS cfg 0 rounds) fun _ => ?_
  refine .bind (orphanDel_spares cfg ino).1 fun _ => .bind (writeBackInodeDesc_spares hS cfg) fun _ => ?_
  exact onFs_spares (.mono (freeInode_tends _ ino _) fun _ _ h => (h.mono fun x hx => hx ▸ hF).spares)

include hp hS hF in
theorem tryReclaimDeletedInode_spares (rounds : Nat) (now : Duration) :
    Keeps (Spares F S) (tryReclaimDeletedInode H cfg ino rounds now) := by
  refine .bind (readInode_readOnly ino).spares fun inode => .bind .get fun m => ?_
  split
  · exact .ret false
  split
  · exact .ret false
  · refine .bind (during_spares hp ?_) fun _ => .ret true
    refine .bind (orphanAddIfAbsent_spares cfg ino) fun _ => .bind (readInode_readOnly ino).spares fun inode => ?_
    refine .bind (.when fun _ => (resizePageCache_readOnly ino 0 _).spares) fun _ => ?_
    exact .bind (updateInode_spares hS _) fun _ => freeUnlinked_spares hp hS hF cfg rounds

include hS in
theorem insertInode_spares (inode : Inode) : Keeps (Spares F S) (insertInode ino inode) :=
  .modify fun m => ⟨refl_of _ m.fs, fun _ hx => setInode_of_ne m inode fun heq => hx (heq ▸ hS)⟩

include hS in
theorem restoreInode_spares (cached : Option Inode) : Keeps (Spares F S) (restoreInode ino cached) := by
  refine .modify fun m => ⟨refl_of _ m.fs, fun x hx => ?_⟩
  have hne : x ≠ ino := fun heq => hx (heq ▸ hS)
  exact Function.update_of_ne hne _ _

include hp hS hF in
theorem reclaimScannedOrphan_spares (rounds : Nat) (now : Duration) :
    Keeps (Spares F S) (reclaimScannedOrphan H cfg ino rounds now) := by
  refine .bind .get fun m => ?_
  split
  · exact .ret false
  split
  · exact .bind (.attempt (orphanDel_spares cfg ino).1) fun _ => .ret false
  · have hreclaim := tryReclaimDeletedInode_spares hp hS hF cfg rounds now
    exact .bind (insertInode_spares hS _) fun _ => .bind (.attempt hreclaim) fun _ =>
      .bind (.attempt hreclaim) fun _ => .bind (restoreInode_spares hS _) fun _ => .ret _

include hp hS in
theorem retruncateScannedOrphan_spares (rounds : Nat) :
    Keeps (Spares F S) (retruncateScannedOrphan H cfg ino rounds) := by
  refine .bind .get fun m => ?_
  split
  · exact .ret false
  split
  · exact .ret false
  · exact .bind (insertInode_spares hS _) fun _ =>
      .bind (.attempt (retruncateTo_spares hp hS cfg _ rounds)) fun _ =>
      .bind (.when fun _ => restoreInode_spares hS _) fun _ => .ret _

include hp in
theorem clearOrphanHead_spares : Keeps (Spares F S) (clearOrphanHead H cfg) :=
  .bind (.attempt (during_spares hp (.bind .get fun _ => .bind (capturePatch_spares _ _) fun _ =>
    head_spares none fun _ => []))) fun _ => .ret ()

theorem finishEach_spares {step : Nat → MountOp Bool} {inos : List Nat}
    (h : ∀ x ∈ inos, Keeps (Spares F S) (step x)) : Keeps (Spares F S) (finishEach step inos) := by
  induction inos with
  | nil => exact .ret true
  | cons x rest ih =>
    exact .bind (h x mem_cons_self) fun _ =>
      .bind (ih fun y hy => h y (mem_cons_of_mem x hy)) fun _ => .ret _

theorem recoverOrphanList_spares (hp : H.Paced) (rounds : Nat) (now : Duration) (m : Mount) :
    ∃ scan, m.fs.walkOrphanChain cfg.table = some scan ∧ scan.Surveys cfg.table m.fs ∧
      m.Spares (· ∈ scan.toFree) (· ∈ scan.chain) (recoverOrphanList H cfg rounds now m).2 := by
  obtain ⟨scan, hwalk, hscan⟩ := m.fs.walkOrphanChain_stops cfg.table
  refine ⟨scan, hwalk, hscan, ?_⟩
  have hfree : ∀ x ∈ scan.toFree, x ∈ scan.chain := fun x hx => by
    rw [hscan.toFree] at hx
    exact mem_of_mem_filter hx
  have htrunc : ∀ x ∈ scan.toRetruncate, x ∈ scan.chain := fun x hx => by
    rw [hscan.toRetruncate] at hx
    exact mem_of_mem_filter hx
  have hrest : Keeps (Spares (· ∈ scan.toFree) (· ∈ scan.chain)) (do
      Op.modify fun m => { m with chain := scan.chain }
      let freed ← finishEach (fun ino => reclaimScannedOrphan H cfg ino rounds now) scan.toFree
      let truncated ← finishEach (fun ino => retruncateScannedOrphan H cfg ino rounds) scan.toRetruncate
      let suspect := scan.suspect || !freed || !truncated
      let m ← Op.get
      Op.when (suspect ∨ m.fs.sb.lastOrphan.isSome) (clearOrphanHead H cfg)
      Op.ret suspect : MountOp Bool) :=
    .bind (chain_spares _) fun _ =>
      .bind (finishEach_spares fun x hx => reclaimScannedOrphan_spares hp (hfree x hx) hx cfg rounds now)
        fun _ =>
      .bind (finishEach_spares fun x hx => retruncateScannedOrphan_spares hp (htrunc x hx) cfg rounds)
        fun _ =>
      .bind .get fun _ => .bind (.when fun _ => clearOrphanHead_spares hp cfg) fun _ => .ret _
  unfold recoverOrphanList
  rw [Op.get_bind]
  split
  · exact refl_of _ m
  · rw [hwalk]
    exact hrest m

end Frames

end Mount

end Ext4
