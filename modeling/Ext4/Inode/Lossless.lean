import Ext4.Extent.Mutate
import Ext4.Inode.Slot

namespace Ext4

open Bytes Specimen

variable {raw : RawInode} {g : JournalGeometry}

namespace RawInode

variable {w k : Nat} {lo hi : RawField}

structure Plain (raw : RawInode) : Prop where
  unread : ∀ f ∈ [RawField.osd1, .fileAclLo, .fileAclHigh, .obsoFaddr, .osd2Reserved, .versionHi,
    .projid, .tail], rawInode.bytes raw f = List.replicate f.width 0
  extraIsize : rawInode.num raw .extraIsize = 32
  flags : rawInode.num raw .flags &&& FileFlags.known = rawInode.num raw .flags
  typed : rawInode.num raw .mode &&& 0o170000 ≠ 0
  sizeHigh : InodeType.fromRawMode (rawInode.num raw .mode) ≠ some .file →
    rawInode.num raw .sizeHigh = 0
  times : ∀ p ∈ [(RawField.atime, RawField.atimeExtra), (.ctime, .ctimeExtra), (.mtime, .mtimeExtra),
    (.crtime, .crtimeExtra)],
    rawInode.num raw p.1 < 2 ^ 31 ∧ rawInode.num raw p.2 / 4 < nanosPerSec

instance (raw : RawInode) : Decidable raw.Plain :=
  decidable_of_iff
    ((∀ f ∈ [RawField.osd1, .fileAclLo, .fileAclHigh, .obsoFaddr, .osd2Reserved, .versionHi,
        .projid, .tail], rawInode.bytes raw f = List.replicate f.width 0) ∧
      rawInode.num raw .extraIsize = 32 ∧
      rawInode.num raw .flags &&& FileFlags.known = rawInode.num raw .flags ∧
      rawInode.num raw .mode &&& 0o170000 ≠ 0 ∧
      (InodeType.fromRawMode (rawInode.num raw .mode) ≠ some .file → rawInode.num raw .sizeHigh = 0) ∧
      ∀ p ∈ [(RawField.atime, RawField.atimeExtra), (.ctime, .ctimeExtra), (.mtime, .mtimeExtra),
        (.crtime, .crtimeExtra)],
        rawInode.num raw p.1 < 2 ^ 31 ∧ rawInode.num raw p.2 / 4 < nanosPerSec)
    ⟨fun ⟨h₁, h₂, h₃, h₄, h₅, h₆⟩ => ⟨h₁, h₂, h₃, h₄, h₅, h₆⟩,
      fun h => ⟨h.unread, h.extraIsize, h.flags, h.typed, h.sizeHigh, h.times⟩⟩

section

variable (raw : RawInode)

theorem le_num (f : RawField) (hw : w = f.width) :
    le w (rawInode.num raw f) = rawInode.bytes raw f := by
  have h := le_leVal (rawInode.bytes raw f)
  rw [rawInode.length_bytes] at h
  subst hw
  exact h

theorem num_lt (f : RawField) : rawInode.num raw f < 256 ^ f.width :=
  rawInode.num_lt raw f

theorem le_joined_lo (hw : w = lo.width) (hk : 2 ^ k = 256 ^ w) :
    le w (joined k (rawInode.num raw lo) (rawInode.num raw hi)) = rawInode.bytes raw lo := by
  have hlt := raw.num_lt lo
  rw [← hw, ← hk] at hlt
  rw [joined_eq hlt, ← le_mod, ← hk, Nat.add_mul_mod_self_right, Nat.mod_eq_of_lt hlt, le_num raw lo hw]

theorem le_joined_hi (hw : w = hi.width) (hk : 2 ^ k = 256 ^ lo.width) :
    le w (joined k (rawInode.num raw lo) (rawInode.num raw hi) >>> k) = rawInode.bytes raw hi := by
  have hlt := raw.num_lt lo
  rw [← hk] at hlt
  have hdiv : (rawInode.num raw lo + rawInode.num raw hi * 2 ^ k) / 2 ^ k = rawInode.num raw hi := by
    rw [Nat.add_mul_div_right _ _ (Nat.two_pow_pos k), Nat.div_eq_of_lt hlt, zero_add]
  rw [joined_eq hlt, Nat.shiftRight_eq_div_pow, hdiv, le_num raw hi hw]

end

theorem mode_split {mode : Nat} (h : mode < 2 ^ 16) :
    mode &&& 0o170000 ||| (mode &&& 0o7777) &&& 0o7777 = mode := by
  rw [Nat.and_assoc, Nat.and_self, ← Nat.and_or_distrib_left]
  exact Nat.and_two_pow_sub_one_of_lt_two_pow h

theorem slice_rootBlock (raw : RawInode) : slice raw.rootBlock 0 60 = rawInode.bytes raw .block := by
  refine List.map_congr_left (f := fun i => byteAt raw.rootBlock (0 + i))
    (g := fun i => byteAt raw (rawInode.offset .block + i)) (l := List.range 60) fun i hi => ?_
  simp [byteAt, rootBlock, List.mem_range.mp hi]

theorem Plain.time_eq (hp : raw.Plain) (secs extra : RawField)
    (hmem : (secs, extra) ∈ [(RawField.atime, RawField.atimeExtra), (.ctime, .ctimeExtra),
      (.mtime, .mtimeExtra), (.crtime, .crtimeExtra)]) :
    encodeTime (raw.time secs extra) = (rawInode.num raw secs, rawInode.num raw extra) :=
  encode_decode (hp.times _ hmem).1 (hp.times _ hmem).2

end RawInode

namespace InodeDesc

variable {desc : InodeDesc} {f : RawField}

theorem rawField_tryFrom (hp : raw.Plain) (h : tryFrom raw = .ok desc) (hlo : f ≠ .checksumLo)
    (hhi : f ≠ .checksumHi) :
    desc.rawField raw.rootBlock f = rawInode.bytes raw f := by
  obtain ⟨type, htype, rfl, -⟩ := tryFrom_ok h
  have hzero : ∀ x ∈ [RawField.osd1, .fileAclLo, .fileAclHigh, .obsoFaddr, .osd2Reserved, .versionHi,
      .projid, .tail], List.replicate x.width 0 = rawInode.bytes raw x := fun x hx => (hp.unread x hx).symm
  have hcode := InodeType.code_fromRawMode hp.typed htype
  have hmode := RawInode.mode_split (raw.num_lt .mode)
  have hsize : type ≠ .file → rawInode.num raw .sizeHigh = 0 := fun hne =>
    hp.sizeHigh (by rw [htype]; exact fun he => hne (Option.some.inj he))
  have hdtime : min (rawInode.num raw .dtime) (2 ^ 32 - 1) = rawInode.num raw .dtime :=
    min_eq_left (Nat.le_sub_one_of_lt (raw.num_lt .dtime))
  have ha := hp.time_eq .atime .atimeExtra (by decide)
  have hc := hp.time_eq .ctime .ctimeExtra (by decide)
  have hm := hp.time_eq .mtime .mtimeExtra (by decide)
  have hcr := hp.time_eq .crtime .crtimeExtra (by decide)
  cases f with
  | mode =>
    simp only [rawField, ofRaw, hcode, hmode]
    exact raw.le_num .mode rfl
  | uid => exact raw.le_joined_lo rfl rfl
  | sizeLo =>
    dsimp only [rawField, ofRaw, rawSize]
    split
    · exact raw.le_joined_lo rfl rfl
    · exact raw.le_num .sizeLo rfl
  | atime =>
    simp only [rawField, ofRaw, ha]
    exact raw.le_num .atime rfl
  | ctime =>
    simp only [rawField, ofRaw, hc]
    exact raw.le_num .ctime rfl
  | mtime =>
    simp only [rawField, ofRaw, hm]
    exact raw.le_num .mtime rfl
  | dtime =>
    simp only [rawField, ofRaw, Dtime.toRaw, Duration.fromSecs, hdtime]
    exact raw.le_num .dtime rfl
  | gid => exact raw.le_joined_lo rfl rfl
  | linkCount => exact raw.le_num .linkCount rfl
  | sectorCount => exact raw.le_joined_lo rfl rfl
  | flags =>
    simp only [rawField, ofRaw, hp.flags]
    exact raw.le_num .flags rfl
  | osd1 => exact hzero _ (by decide)
  | block => exact raw.slice_rootBlock
  | generation => exact raw.le_num .generation rfl
  | fileAclLo => exact hzero _ (by decide)
  | sizeHigh =>
    dsimp only [rawField, ofRaw, rawSize]
    split
    · exact raw.le_joined_hi rfl rfl
    next hne =>
      rw [← hsize hne]
      exact raw.le_num .sizeHigh rfl
  | obsoFaddr => exact hzero _ (by decide)
  | blocksHigh => exact raw.le_joined_hi rfl rfl
  | fileAclHigh => exact hzero _ (by decide)
  | uidHigh => exact raw.le_joined_hi rfl rfl
  | gidHigh => exact raw.le_joined_hi rfl rfl
  | checksumLo => exact absurd rfl hlo
  | osd2Reserved => exact hzero _ (by decide)
  | extraIsize =>
    rw [rawField, ← hp.extraIsize]
    exact raw.le_num .extraIsize rfl
  | checksumHi => exact absurd rfl hhi
  | ctimeExtra =>
    simp only [rawField, ofRaw, hc]
    exact raw.le_num .ctimeExtra rfl
  | mtimeExtra =>
    simp only [rawField, ofRaw, hm]
    exact raw.le_num .mtimeExtra rfl
  | atimeExtra =>
    simp only [rawField, ofRaw, ha]
    exact raw.le_num .atimeExtra rfl
  | crtime =>
    simp only [rawField, ofRaw, hcr]
    exact raw.le_num .crtime rfl
  | crtimeExtra =>
    simp only [rawField, ofRaw, hcr]
    exact raw.le_num .crtimeExtra rfl
  | versionHi => exact hzero _ (by decide)
  | projid => exact hzero _ (by decide)
  | tail => exact hzero _ (by decide)

inductive Held (t : InodeTable) (ino : Nat) : RawInode → InodeDesc → Buffer 60 → Bool → Prop
  | loaded {raw : RawInode} {desc : InodeDesc} (plain : raw.Plain) (read : tryFrom raw = .ok desc) :
      Held t ino raw desc raw.rootBlock false
  | written {raw : RawInode} {desc : InodeDesc} {root : Buffer 60} {listed : Bool}
      (held : Held t ino raw desc root listed) (updates : List Update) (root' : Buffer 60)
      (next : Option (Option Nat)) :
      Held t ino ((desc.applyAll updates).capturedRaw t ino next root') (desc.applyAll updates) root'
        next.isSome

theorem Held.bytes {t : InodeTable} {ino : Nat} {root : Buffer 60} {listed : Bool}
    (h : Held t ino raw desc root listed) (hlo : f ≠ .checksumLo) (hhi : f ≠ .checksumHi)
    (hd : f = .dtime → listed = false) :
    rawInode.bytes raw f = desc.rawField root f := by
  cases h with
  | loaded plain read => exact (rawField_tryFrom plain read hlo hhi).symm
  | written held updates _ next =>
    refine bytes_capturedRaw t ino _ root hlo hhi fun he => ?_
    exact Option.not_isSome_iff_eq_none.mp (by rw [hd he]; exact Bool.false_ne_true)

end InodeDesc

namespace Fs

variable {fs : Fs} {t : InodeTable} {ino : Nat} {slot : InodeSlot} {block : Block}

theorem writeBackInodeDesc_ends (hr : fs.Ready) (hh : fs.handle.isSome = true)
    (hslot : fs.inodeSlot t ino = .ok slot) (g : JournalGeometry) (chain : OrphanChain)
    (desc : InodeDesc) (root : Buffer 60) :
    (writeBackInodeDesc t g chain ino desc root).Ends fs
      (fun _ fs' => fs.Evolves fs' (fs.patched slot.bid
        ((desc.capturedRaw t ino (chain.successorOf ino) root).intoBlock slot.offset)) {slot.bid})
      fun _ fs' => fs.Evolves fs' fs.image ∅ ∧ fs.Refuses slot.bid := by
  unfold writeBackInodeDesc
  refine .bind_get (.bind_of_eq (Op.ofExcept_ok hslot fs) ?_)
  rw [if_pos hh]
  exact capturePatch_ends hr slot.bid _

theorem writeBackInodeDesc_granted (hr : fs.Ready) (hh : fs.handle.isSome = true)
    (hslot : fs.inodeSlot t ino = .ok slot) {S : Finset Nat} {n : Nat} (hc : fs.Covers S n)
    (hmem : slot.bid ∈ S) (himage : fs.image slot.bid = some block)
    (chain : OrphanChain) (desc : InodeDesc) (root : Buffer 60) :
    ∃ fs', writeBackInodeDesc t g chain ino desc root fs = (.ok (), fs') ∧
      fs'.image slot.bid = some ((desc.capturedRaw t ino (chain.successorOf ino) root).intoBlock
        slot.offset block) := by
  have hends := writeBackInodeDesc_ends hr hh hslot g chain desc root
  rcases hrun : writeBackInodeDesc t g chain ino desc root fs with ⟨_ | _, fs'⟩
  · have hrefused := (hends.of_error hrun).2
    exact absurd hrefused (hc.admits hmem (by rw [himage]; exact Option.some_ne_none block))
  · refine ⟨fs', rfl, ?_⟩
    rw [(hends.of_ok hrun).image slot.bid]
    simp [patched, overlay, hh, himage]

end Fs

namespace Specimen

def plainTable : InodeTable := ⟨256, none, by decide, by decide⟩

def fileDesc : InodeDesc where
  type := .file
  perm := 0o644
  uid := 1000
  gid := 1000
  size := 0
  atime := .zero
  ctime := .zero
  mtime := .zero
  crtime := .zero
  dtime := .time .zero
  linkCount := 1
  sectorCount := 0
  flags := FileFlags.extents
  fileAcl := 0
  generation := 1
  block := zeros 60

def fileSlot (acl : Nat) : RawInode :=
  rawInode.put (fileDesc.toRawInode (zeros 60)) .fileAclLo (le 4 acl)

def fileTable (acl : Nat) : Block := (fileSlot acl).intoBlock 2816 (zeros 4096)

def fileVolume (acl : Nat) : Fs :=
  (Specimen.mk 64 5 8 Specimen.taken_5 (by decide) Specimen.bits_64).bearing wide fun b =>
    if b = 4 then some (fileTable acl) else none

section

variable (acl : Nat)

theorem fileVolume_image : (fileVolume acl).image 4 = some (fileTable acl) := rfl

theorem fileVolume_ready : (fileVolume acl).Ready :=
  let v := mk 64 5 8 (by decide) (by decide) (by decide)
  .live ⟨rfl, rfl, (v.live wide).serves, (v.live wide).credits⟩

theorem fileVolume_slot : (fileVolume acl).inodeSlot plainTable 12 = .ok ⟨4, 2816⟩ := by
  simp [Fs.inodeSlot, fileVolume, bearing, fs, sb, group, desc, plainTable]

theorem fileVolume_covers : (fileVolume acl).Covers {4} 0 :=
  (mk 64 5 8 (by decide) (by decide) (by decide)).covers wide (by decide)

theorem fileTable_slot : RawInode.ofBlock (fileTable acl) 2816 = fileSlot acl :=
  RawInode.ofBlock_intoBlock _ _ (by decide)

end

theorem fileSlot_plain : (fileSlot 0).Plain := by decide +kernel

theorem fileSlot_read (acl : Nat) (h : (InodeDesc.tryFrom (fileSlot acl)).isOk = true) :
    ∃ desc, InodeDesc.tryFrom (fileSlot acl) = .ok desc := by
  cases hread : InodeDesc.tryFrom (fileSlot acl) with
  | ok desc => exact ⟨desc, rfl⟩
  | error e => rw [hread] at h; cases h

end Specimen

end Ext4
