import Ext4.Alloc.FunnelSpec
import Ext4.Inode.Raw

namespace Ext4

open Bytes

variable {f : RawField}

structure InodeTable where
  inodeSize : Nat
  csumSeed : Option UInt32
  size_ge : 256 ≤ inodeSize
  size_dvd : inodeSize ∣ 4096

theorem InodeTable.size_256 : 256 ≤ 256 := by decide

theorem InodeTable.dvd_256 : 256 ∣ 4096 := by decide

def deriveInode (seed : UInt32) (ino generation : Nat) : UInt32 :=
  crc32c (crc32c seed (le 4 ino)) (le 4 generation)

namespace RawInode

variable {off : Nat}

def ofBlock (b : Block) (off : Nat) : RawInode := fun i => byteAt b (off + i.val)

def intoBlock (raw : RawInode) (off : Nat) (b : Block) : Block := splice b off (slice raw 0 256)

theorem ofBlock_intoBlock (raw : RawInode) (b : Block) (hoff : off + 256 ≤ 4096) :
    ofBlock (raw.intoBlock off b) off = raw := by
  apply ext_byteAt
  intro i hi
  have hlen : i < (slice raw 0 256).length := by simpa using hi
  have hin : byteAt (splice b off (slice raw 0 256)) (off + i) = (slice raw 0 256)[i] :=
    byteAt_splice_in hlen (by simpa using hoff)
  have hread : byteAt (ofBlock (raw.intoBlock off b) off) i = byteAt (raw.intoBlock off b) (off + i) := by
    simp [byteAt, ofBlock, hi]
  rw [hread, intoBlock, hin]
  simp [slice]

theorem byteAt_intoBlock (raw : RawInode) {i : Nat} (b : Block)
    (h : i < off ∨ off + 256 ≤ i) : byteAt (raw.intoBlock off b) i = byteAt b i :=
  byteAt_splice_out (by simpa using h)

def stamped (t : InodeTable) (ino : Nat) (raw : RawInode) : RawInode :=
  match t.csumSeed with
  | none => raw
  | some seed =>
    InodeDesc.stampInodeChecksum raw (deriveInode seed ino (rawInode.num raw .generation)) t.inodeSize

theorem bytes_stamped (t : InodeTable) (ino : Nat) (raw : RawInode) (hlo : f ≠ .checksumLo)
    (hhi : f ≠ .checksumHi) :
    rawInode.bytes (raw.stamped t ino) f = rawInode.bytes raw f := by
  unfold stamped
  split
  · rfl
  · exact InodeDesc.bytes_stampInodeChecksum _ _ _ hlo hhi

end RawInode

-- the in-memory mirror of the orphan list, its head first
abbrev OrphanChain := List Nat

namespace OrphanChain

def successorOf : OrphanChain → Nat → Option (Option Nat)
  | [], _ => none
  | x :: rest, ino => if x = ino then some rest.head? else successorOf rest ino

end OrphanChain

structure InodeSlot where
  bid : Nat
  offset : Nat
  deriving DecidableEq

namespace Fs

def inodeSlot (t : InodeTable) (fs : Fs) (ino : Nat) : Except Fault InodeSlot :=
  if ino = 0 then .error (.error .enoent "invalid inode number 0")
  else if fs.sb.nrBlockGroups ≤ (ino - 1) / fs.sb.inodesPerGroup then
    .error (.error .enoent "inode block group out of range")
  else
    let group := fs.groups ((ino - 1) / fs.sb.inodesPerGroup)
    let byte := group.metadata.desc.inodeTableBid * 4096 +
      (ino - 1) % fs.sb.inodesPerGroup * t.inodeSize
    .ok ⟨byte / 4096, byte % 4096⟩

theorem inodeSlot_fits {t : InodeTable} {fs : Fs} {ino : Nat} {slot : InodeSlot}
    (h : fs.inodeSlot t ino = .ok slot) : slot.offset + 256 ≤ 4096 := by
  unfold inodeSlot at h
  split at h
  · cases h
  split at h
  · cases h
  dsimp only at h
  cases h
  obtain ⟨k, hk⟩ := t.size_dvd
  have hge := t.size_ge
  have hdvd : t.inodeSize ∣ ((fs.groups ((ino - 1) / fs.sb.inodesPerGroup)).metadata.desc.inodeTableBid *
      4096 + (ino - 1) % fs.sb.inodesPerGroup * t.inodeSize) % 4096 :=
    (Nat.dvd_mod_iff t.size_dvd).mpr
      (Nat.dvd_add (Nat.dvd_mul_left_of_dvd t.size_dvd _) (Nat.dvd_mul_left _ _))
  obtain ⟨m, hm⟩ := hdvd
  have hlt : t.inodeSize * m < t.inodeSize * k := by
    rw [← hm, ← hk]
    exact Nat.mod_lt _ (by decide)
  have hsucc : t.inodeSize * (m + 1) ≤ t.inodeSize * k :=
    Nat.mul_le_mul_left _ (Nat.lt_of_mul_lt_mul_left hlt)
  rw [hm]
  rw [Nat.mul_succ] at hsucc
  dsimp only
  omega

def readRaw (fs : Fs) (slot : InodeSlot) : Except Fault RawInode :=
  match fs.device slot.bid with
  | none => .error (.error .eio "failed to read raw inode")
  | some b => .ok (RawInode.ofBlock b slot.offset)

end Fs

namespace InodeDesc

-- a listed inode carries its successor in `i_dtime`, whatever the descriptor says
def capturedRaw (t : InodeTable) (ino : Nat) (next : Option (Option Nat)) (desc : InodeDesc)
    (root : Buffer 60) : RawInode :=
  let raw := desc.toRawInode root
  let raw := match next with
    | none => raw
    | some successor => rawInode.put raw .dtime (le 4 (successor.getD 0))
  raw.stamped t ino

def patchRaw (desc : InodeDesc) (root : Buffer 60) (raw : RawInode) : RawInode :=
  let field := desc.rawField root
  let raw := rawInode.put raw .sizeLo (field .sizeLo)
  let raw := if desc.type = .file then rawInode.put raw .sizeHigh (field .sizeHigh) else raw
  let raw := rawInode.putAll field raw
    [.sectorCount, .blocksHigh, .mtime, .mtimeExtra, .ctime, .ctimeExtra]
  let mode := rawInode.num raw .mode &&& 0xF000 ||| desc.perm &&& 0o7777
  let raw := rawInode.put raw .mode (le 2 mode)
  rawInode.putAll field raw
    [.uid, .uidHigh, .gid, .gidHigh, .atime, .atimeExtra, .block, .flags, .linkCount, .dtime]

end InodeDesc

namespace Fs

variable (t : InodeTable) (g : JournalGeometry)

def writeBackInodeDesc (chain : OrphanChain) (ino : Nat) (desc : InodeDesc) (root : Buffer 60) :
    FsOp Unit := do
  let fs ← Op.get
  let slot ← Op.ofExcept (fs.inodeSlot t ino)
  if fs.handle.isSome then
    capturePatch g slot.bid
      ((desc.capturedRaw t ino (chain.successorOf ino) root).intoBlock slot.offset)
  else
    match fs.device slot.bid with
    | none => Op.fail (.error .eio "failed to read inode for writeback")
    | some b =>
      let raw := (desc.patchRaw root (RawInode.ofBlock b slot.offset)).stamped t ino
      writeDevice slot.bid (raw.intoBlock slot.offset b)

def writeNewInodeDesc (ino : Nat) (desc : InodeDesc) : FsOp Unit := do
  let fs ← Op.get
  let slot ← Op.ofExcept (fs.inodeSlot t ino)
  let raw := (desc.toRawInode desc.block).stamped t ino
  if fs.handle.isSome then capturePatch g slot.bid (raw.intoBlock slot.offset)
  else
    match fs.device slot.bid with
    | none => Op.fail (.error .eio "failed to write new inode")
    | some b => writeDevice slot.bid (raw.intoBlock slot.offset b)

def patchDtime (ino : Nat) (slot : InodeSlot) (next : Nat) (b : Block) : Block :=
  let b := putLE b (slot.offset + rawInode.offset .dtime) 4 next
  match t.csumSeed with
  | none => b
  | some _ => ((RawInode.ofBlock b slot.offset).stamped t ino).intoBlock slot.offset b

def journalPatchDtime (ino : Nat) (next : Nat) : FsOp Unit := do
  let fs ← Op.get
  let slot ← Op.ofExcept (fs.inodeSlot t ino)
  capturePatch g slot.bid (patchDtime t ino slot next)

end Fs

namespace InodeDesc

inductive Update where
  | size (n : Nat)
  | linkCount (n : Nat)
  | dtime (d : Dtime)
  | flags (n : Nat)
  | rawBlock (b : Buffer 60)
  | atime (time : Duration)
  | ctime (time : Duration)
  | mtime (time : Duration)
  | sectorCount (n : Nat)
  | perm (n : Nat)
  | uid (n : Nat)
  | gid (n : Nat)

namespace Update

def apply (desc : InodeDesc) : Update → InodeDesc
  | .size n => { desc with size := n }
  | .linkCount n => { desc with linkCount := n }
  | .dtime d => { desc with dtime := d }
  | .flags n => { desc with flags := n }
  | .rawBlock b => { desc with block := b }
  | .atime time => { desc with atime := time }
  | .ctime time => { desc with ctime := time }
  | .mtime time => { desc with mtime := time }
  | .sectorCount n => { desc with sectorCount := n }
  | .perm n => { desc with perm := n }
  | .uid n => { desc with uid := n }
  | .gid n => { desc with gid := n }

def fields : Update → List RawField
  | .size _ => [.sizeLo, .sizeHigh]
  | .linkCount _ => [.linkCount]
  | .dtime _ => [.dtime]
  | .flags _ => [.flags]
  | .rawBlock _ => [.block]
  | .atime _ => [.atime, .atimeExtra]
  | .ctime _ => [.ctime, .ctimeExtra]
  | .mtime _ => [.mtime, .mtimeExtra]
  | .sectorCount _ => [.sectorCount, .blocksHigh]
  | .perm _ => [.mode]
  | .uid _ => [.uid, .uidHigh]
  | .gid _ => [.gid, .gidHigh]

theorem rawField_apply (desc : InodeDesc) (u : Update) (root : Buffer 60)
    (hf : f ∉ u.fields) : (u.apply desc).rawField root f = desc.rawField root f := by
  cases u <;> cases f <;> first | rfl | simp [fields] at hf

end Update

def applyAll (desc : InodeDesc) (updates : List Update) : InodeDesc := updates.foldl Update.apply desc

theorem rawField_applyAll (desc : InodeDesc) {updates : List Update} (root : Buffer 60)
    (hf : ∀ u ∈ updates, f ∉ u.fields) :
    (desc.applyAll updates).rawField root f = desc.rawField root f := by
  induction updates generalizing desc with
  | nil => rfl
  | cons u rest ih =>
    rw [applyAll, List.foldl_cons, ← applyAll, ih _ fun v hv => hf v (List.mem_cons_of_mem u hv)]
    exact u.rawField_apply desc root (hf u List.mem_cons_self)

theorem rawField_root (desc : InodeDesc) (root root' : Buffer 60) (hf : f ≠ .block) :
    desc.rawField root' f = desc.rawField root f := by
  cases f <;> first | rfl | exact absurd rfl hf

theorem bytes_capturedRaw (t : InodeTable) (ino : Nat) {next : Option (Option Nat)} (desc : InodeDesc)
    (root : Buffer 60) (hlo : f ≠ .checksumLo) (hhi : f ≠ .checksumHi) (hd : f = .dtime → next = none) :
    rawInode.bytes (desc.capturedRaw t ino next root) f = desc.rawField root f := by
  unfold capturedRaw
  rw [RawInode.bytes_stamped t ino _ hlo hhi]
  cases next with
  | none => exact desc.bytes_toRawInode root f
  | some successor =>
    have hne : RawField.dtime ≠ f := fun h => Option.some_ne_none _ (hd h.symm)
    dsimp only
    rw [rawInode.bytes_put_other _ (by simp [rawInode, RawField.width]) hne]
    exact desc.bytes_toRawInode root f

end InodeDesc

end Ext4
