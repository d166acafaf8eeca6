import Ext4.Alloc.Group
import Ext4.Base.Record
import Ext4.Inode.Time

namespace Ext4

open Bytes

inductive RawField where
  | mode | uid | sizeLo | atime | ctime | mtime | dtime | gid | linkCount | sectorCount | flags | osd1
  | block | generation | fileAclLo | sizeHigh | obsoFaddr | blocksHigh | fileAclHigh | uidHigh
  | gidHigh | checksumLo | osd2Reserved | extraIsize | checksumHi | ctimeExtra | mtimeExtra
  | atimeExtra | crtime | crtimeExtra | versionHi | projid | tail
  deriving DecidableEq

def RawField.width : RawField → Nat
  | .mode | .uid | .gid | .linkCount | .blocksHigh | .fileAclHigh | .uidHigh | .gidHigh => 2
  | .checksumLo | .osd2Reserved | .extraIsize | .checksumHi => 2
  | .block => 60
  | .tail => 96
  | _ => 4

def RawField.all : List RawField :=
  [.mode, .uid, .sizeLo, .atime, .ctime, .mtime, .dtime, .gid, .linkCount, .sectorCount, .flags,
    .osd1, .block, .generation, .fileAclLo, .sizeHigh, .obsoFaddr, .blocksHigh, .fileAclHigh,
    .uidHigh, .gidHigh, .checksumLo, .osd2Reserved, .extraIsize, .checksumHi, .ctimeExtra,
    .mtimeExtra, .atimeExtra, .crtime, .crtimeExtra, .versionHi, .projid, .tail]

def rawInode : Record 256 RawField where
  fields := RawField.all
  width := RawField.width
  mem_fields := by
    intro f
    cases f <;> decide
  nodup := by decide
  total := by decide

abbrev RawInode := Buffer 256

def InodeType.code : InodeType → Nat
  | .unknown => 0o000000
  | .namedPipe => 0o010000
  | .charDevice => 0o020000
  | .dir => 0o040000
  | .blockDevice => 0o060000
  | .file => 0o100000
  | .symLink => 0o120000
  | .socket => 0o140000

def InodeType.tryFrom (code : Nat) : Option InodeType :=
  [.unknown, .namedPipe, .charDevice, .dir, .blockDevice, .file, .symLink, .socket].find? fun t =>
    t.code = code

def InodeType.fromRawMode (mode : Nat) : Option InodeType :=
  if mode &&& 0o170000 = 0 then some .file else InodeType.tryFrom (mode &&& 0o170000)

theorem InodeType.code_fromRawMode {mode : Nat} {t : InodeType} (hm : mode &&& 0o170000 ≠ 0)
    (h : InodeType.fromRawMode mode = some t) : t.code = mode &&& 0o170000 := by
  rw [fromRawMode, if_neg hm] at h
  simpa using List.find?_some h

namespace FileFlags

def index : Nat := 1 <<< 12

def extents : Nat := 1 <<< 19

def known : Nat := 0xFF ||| 1 <<< 12 ||| 1 <<< 18 ||| 1 <<< 19 ||| 1 <<< 21 ||| 1 <<< 28

end FileFlags

inductive Dtime where
  | time (t : Duration)
  | orphanNext (next : Option Nat)
  deriving DecidableEq

def Dtime.toRaw : Dtime → Nat
  | .time t => min t.secs (2 ^ 32 - 1)
  | .orphanNext next => next.getD 0

structure InodeDesc where
  type : InodeType
  perm : Nat
  uid : Nat
  gid : Nat
  size : Nat
  atime : Duration
  ctime : Duration
  mtime : Duration
  crtime : Duration
  dtime : Dtime
  linkCount : Nat
  sectorCount : Nat
  flags : Nat
  fileAcl : Nat
  generation : Nat
  block : Buffer 60

def joined (w lo hi : Nat) : Nat := lo ||| hi <<< w

theorem joined_eq {w lo : Nat} (hlo : lo < 2 ^ w) (hi : Nat) : joined w lo hi = lo + hi * 2 ^ w := by
  rw [joined, Nat.or_comm, ← Nat.shiftLeft_add_eq_or_of_lt hlo, Nat.shiftLeft_eq, add_comm]

namespace RawInode

def time (raw : RawInode) (secs extra : RawField) : Duration :=
  decodeTime (rawInode.num raw secs) (rawInode.num raw extra)

def rootBlock (raw : RawInode) : Buffer 60 := fun i => byteAt raw (rawInode.offset .block + i.val)

end RawInode

namespace InodeDesc

def rawSize (raw : RawInode) (type : InodeType) : Nat :=
  if type = .file then joined 32 (rawInode.num raw .sizeLo) (rawInode.num raw .sizeHigh)
  else rawInode.num raw .sizeLo

def ofRaw (raw : RawInode) (type : InodeType) : InodeDesc :=
  let num := rawInode.num raw
  { type := type
    perm := num .mode &&& 0o7777
    uid := joined 16 (num .uid) (num .uidHigh)
    gid := joined 16 (num .gid) (num .gidHigh)
    size := rawSize raw type
    atime := raw.time .atime .atimeExtra
    ctime := raw.time .ctime .ctimeExtra
    mtime := raw.time .mtime .mtimeExtra
    crtime := raw.time .crtime .crtimeExtra
    dtime := .time (.fromSecs (num .dtime))
    linkCount := num .linkCount
    sectorCount := joined 32 (num .sectorCount) (num .blocksHigh)
    flags := num .flags &&& FileFlags.known
    fileAcl := joined 32 (num .fileAclLo) (num .fileAclHigh)
    generation := num .generation
    block := raw.rootBlock }

def tryFrom (raw : RawInode) : Except Fault InodeDesc :=
  if rawInode.num raw .linkCount = 0 then .error (.error .estale "inode is not in use")
  else
    match InodeType.fromRawMode (rawInode.num raw .mode) with
    | none => .error (.error .euclean "invalid inode mode")
    | some type =>
      if type = .symLink ∧ 4096 ≤ rawSize raw type then
        .error (.error .euclean "symlink size too large")
      else if 2 ^ 63 - 1 < rawSize raw type then .error (.error .euclean "inode size too large")
      else .ok (ofRaw raw type)

theorem tryFrom_ok {raw : RawInode} {desc : InodeDesc} (h : tryFrom raw = .ok desc) :
    ∃ type, InodeType.fromRawMode (rawInode.num raw .mode) = some type ∧ desc = ofRaw raw type ∧
      rawInode.num raw .linkCount ≠ 0 := by
  unfold tryFrom at h
  split at h
  · cases h
  next hlink =>
  split at h
  · cases h
  next type htype =>
  split at h
  · cases h
  split at h
  · cases h
  · exact ⟨type, htype, (Except.ok.inj h).symm, hlink⟩

def rawField (desc : InodeDesc) (root : Buffer 60) : RawField → List UInt8
  | .mode => le 2 (desc.type.code ||| desc.perm &&& 0o7777)
  | .uid => le 2 desc.uid
  | .sizeLo => le 4 desc.size
  | .atime => le 4 (encodeTime desc.atime).1
  | .ctime => le 4 (encodeTime desc.ctime).1
  | .mtime => le 4 (encodeTime desc.mtime).1
  | .dtime => le 4 desc.dtime.toRaw
  | .gid => le 2 desc.gid
  | .linkCount => le 2 desc.linkCount
  | .sectorCount => le 4 desc.sectorCount
  | .flags => le 4 desc.flags
  | .block => slice root 0 60
  | .generation => le 4 desc.generation
  | .sizeHigh => le 4 (if desc.type = .file then desc.size >>> 32 else 0)
  | .blocksHigh => le 2 (desc.sectorCount >>> 32)
  | .uidHigh => le 2 (desc.uid >>> 16)
  | .gidHigh => le 2 (desc.gid >>> 16)
  | .extraIsize => le 2 32
  | .ctimeExtra => le 4 (encodeTime desc.ctime).2
  | .mtimeExtra => le 4 (encodeTime desc.mtime).2
  | .atimeExtra => le 4 (encodeTime desc.atime).2
  | .crtime => le 4 (encodeTime desc.crtime).1
  | .crtimeExtra => le 4 (encodeTime desc.crtime).2
  | f => List.replicate f.width 0

def toRawInode (desc : InodeDesc) (root : Buffer 60) : RawInode := rawInode.build (desc.rawField root)

section

variable (desc : InodeDesc) (root : Buffer 60) (f : RawField)

theorem length_rawField :
    (desc.rawField root f).length = rawInode.width f := by
  cases f <;> simp [rawField, rawInode, RawField.width]

theorem bytes_toRawInode :
    rawInode.bytes (desc.toRawInode root) f = desc.rawField root f :=
  rawInode.bytes_build (desc.length_rawField root) f

end

def inodeChecksum (raw : RawInode) (seed : UInt32) (inodeSize : Nat) : UInt32 :=
  let crc := crc32c seed (slice raw 0 0x7C)
  let crc := crc32c crc [0, 0]
  if 128 < inodeSize then
    let crc := crc32c crc (slice raw 0x7E (0x82 - 0x7E))
    let crc := crc32c crc [0, 0]
    crc32c crc (slice raw 0x84 (inodeSize - 0x84))
  else crc32c crc (slice raw 0x7E (inodeSize - 0x7E))

def stampInodeChecksum (raw : RawInode) (seed : UInt32) (inodeSize : Nat) : RawInode :=
  let crc := inodeChecksum raw seed inodeSize
  let raw' := rawInode.put raw .checksumLo (le 2 crc.toNat)
  if 128 < inodeSize then rawInode.put raw' .checksumHi (le 2 (crc.toNat >>> 16)) else raw'

theorem bytes_stampInodeChecksum (raw : RawInode) (seed : UInt32) (inodeSize : Nat) {f : RawField}
    (hlo : f ≠ .checksumLo) (hhi : f ≠ .checksumHi) :
    rawInode.bytes (stampInodeChecksum raw seed inodeSize) f = rawInode.bytes raw f := by
  have hkeep : ∀ crc : UInt32,
      rawInode.bytes (rawInode.put raw .checksumLo (le 2 crc.toNat)) f = rawInode.bytes raw f :=
    fun crc => rawInode.bytes_put_other raw (by simp [rawInode, RawField.width]) hlo.symm
  unfold stampInodeChecksum
  dsimp only
  split
  · rw [rawInode.bytes_put_other _ (by simp [rawInode, RawField.width]) hhi.symm]
    exact hkeep _
  · exact hkeep _

end InodeDesc

end Ext4
