import Ext4.Alloc.Admission
import Ext4.Mount.Mirror

namespace Ext4

open Bytes Op SuperBlock RawInode

variable {g : JournalGeometry}

namespace InodeDesc

variable (raw : RawInode) (seed : UInt32) (inodeSize : Nat)

def inodeChecksumChecked : Option UInt32 := do
  let crc := crc32c seed (← subslice raw 0 0x7C)
  let crc := crc32c crc [0, 0]
  if 128 < inodeSize then do
    let crc := crc32c crc (← subslice raw 0x7E 0x82)
    let crc := crc32c crc [0, 0]
    some (crc32c crc (← subslice raw 0x84 inodeSize))
  else some (crc32c crc (← subslice raw 0x7E inodeSize))

def verifyInodeChecksum : Option (Except Fault Unit) := do
  let crc ← inodeChecksumChecked raw seed inodeSize
  some <|
    if rawInode.num raw .checksumLo ≠ crc.toNat &&& 0xFFFF then
      .error (.error .euclean "bad inode checksum (lo)")
    else if 128 < inodeSize ∧ rawInode.num raw .checksumHi ≠ crc.toNat >>> 16 &&& 0xFFFF then
      .error (.error .euclean "bad inode checksum (hi)")
    else .ok ()

def stampChecked : Option RawInode := do
  let _ ← inodeChecksumChecked raw seed inodeSize
  some (stampInodeChecksum raw seed inodeSize)

theorem inodeChecksumChecked_wide : inodeChecksumChecked raw seed 256 = some (inodeChecksum raw seed 256) := rfl

theorem inodeChecksumChecked_none {inodeSize : Nat} (h : 256 < inodeSize) :
    inodeChecksumChecked raw seed inodeSize = none := by
  have hwide : 128 < inodeSize := lt_trans (by decide) h
  have hout : subslice raw 0x84 inodeSize = none := if_neg fun hin => not_le.mpr h hin.2
  simp [inodeChecksumChecked, hwide, hout]

theorem slice_stampInodeChecksum {off len : Nat} (hlo : off + len ≤ 0x7C ∨ 0x7E ≤ off)
    (hhi : off + len ≤ 0x82 ∨ 0x84 ≤ off) :
    slice (stampInodeChecksum raw seed inodeSize) off len = slice raw off len := by
  have hlow : ∀ v, slice (rawInode.put raw .checksumLo (le 2 v)) off len = slice raw off len := fun v => by
    refine slice_splice_disjoint ?_
    rw [le_length]
    exact hlo
  unfold stampInodeChecksum
  dsimp only
  split
  · refine (slice_splice_disjoint ?_).trans (hlow _)
    rw [le_length]
    exact hhi
  · exact hlow _

theorem inodeChecksum_stamped :
    inodeChecksum (stampInodeChecksum raw seed inodeSize) seed inodeSize = inodeChecksum raw seed inodeSize := by
  have hhead : slice (stampInodeChecksum raw seed inodeSize) 0 0x7C = slice raw 0 0x7C :=
    slice_stampInodeChecksum raw seed inodeSize (.inl (by decide)) (.inl (by decide))
  have hgap : slice (stampInodeChecksum raw seed inodeSize) 0x7E (0x82 - 0x7E) = slice raw 0x7E (0x82 - 0x7E) :=
    slice_stampInodeChecksum raw seed inodeSize (.inr (by decide)) (.inl (by decide))
  unfold inodeChecksum
  rw [hhead, hgap]
  split
  · rw [slice_stampInodeChecksum raw seed inodeSize (.inr (by decide)) (.inr (by decide))]
  · rw [slice_stampInodeChecksum raw seed inodeSize (.inr (by decide)) (.inl (by omega))]

theorem num_put_checksum {f : RawField} (hw : rawInode.width f = 2) (v : Nat) :
    rawInode.num (rawInode.put raw f (le 2 v)) f = v % 2 ^ 16 := by
  unfold Record.num
  rw [rawInode.bytes_put_same raw (by rw [hw, le_length]), leVal_le]
  rfl

theorem num_stamp_lo : rawInode.num (stampInodeChecksum raw seed inodeSize) .checksumLo =
    (inodeChecksum raw seed inodeSize).toNat % 2 ^ 16 := by
  unfold stampInodeChecksum
  dsimp only
  split
  · unfold Record.num
    rw [rawInode.bytes_put_other _ (le_length 2 _) (by decide)]
    exact num_put_checksum raw rfl _
  · exact num_put_checksum raw rfl _

theorem num_stamp_hi (h : 128 < inodeSize) : rawInode.num (stampInodeChecksum raw seed inodeSize) .checksumHi =
    (inodeChecksum raw seed inodeSize).toNat >>> 16 % 2 ^ 16 := by
  unfold stampInodeChecksum
  dsimp only
  rw [if_pos h]
  exact num_put_checksum _ rfl _

theorem verify_stampInodeChecksum :
    verifyInodeChecksum (stampInodeChecksum raw seed 256) seed 256 = some (.ok ()) := by
  have hand : ∀ n : Nat, n &&& 0xFFFF = n % 2 ^ 16 := fun n => Nat.and_two_pow_sub_one_eq_mod n 16
  unfold verifyInodeChecksum
  rw [inodeChecksumChecked_wide, inodeChecksum_stamped]
  dsimp only [Option.bind_eq_bind, Option.bind_some]
  rw [num_stamp_lo, num_stamp_hi _ _ _ (by decide), hand, hand, if_neg (not_not.mpr rfl),
    if_neg fun h => h.2 rfl]

end InodeDesc

namespace RawInode

def verified (t : InodeTable) (ino : Nat) (raw : RawInode) : Option (Except Fault Unit) :=
  match t.csumSeed with
  | none => some (.ok ())
  | some seed =>
    InodeDesc.verifyInodeChecksum raw (deriveInode seed ino (rawInode.num raw .generation)) t.inodeSize

theorem verified_stamped {t : InodeTable} (hsize : t.inodeSize = 256) (ino : Nat) (raw : RawInode) :
    (raw.stamped t ino).verified t ino = some (.ok ()) := by
  unfold verified
  split
  · rfl
  next seed hseed =>
    have hgen : rawInode.num (raw.stamped t ino) .generation = rawInode.num raw .generation :=
      congrArg leVal (raw.bytes_stamped t ino (by decide) (by decide))
    have hstamp : raw.stamped t ino =
        InodeDesc.stampInodeChecksum raw (deriveInode seed ino (rawInode.num raw .generation)) 256 := by
      rw [stamped, hseed]
      exact congrArg (InodeDesc.stampInodeChecksum raw _) hsize
    rw [hgen, hsize, hstamp]
    exact InodeDesc.verify_stampInodeChecksum raw _

end RawInode

namespace Fs

variable {t : InodeTable} {fs fs' : Fs} {ino : Nat} {slot : InodeSlot}

def readInodeDesc (t : InodeTable) (fs : Fs) (ino : Nat) : Option (Except Fault InodeDesc) :=
  match findGroup fs.sb ino with
  | .error e => some (.error e)
  | .ok idx =>
    let byteOff := (ino - 1) % fs.sb.inodesPerGroup * t.inodeSize
    match fs.image ((fs.groups idx).metadata.desc.inodeTableBid + byteOff / 4096) with
    | none => some (.error ioError)
    | some block =>
      let raw := RawInode.ofBlock block (byteOff % 4096)
      (raw.verified t ino).map fun res =>
        match res with
        | .error e => .error e
        | .ok () => InodeDesc.tryFrom raw

def SlotVerifies (t : InodeTable) (ino : Nat) (fs : Fs) : Prop :=
  ∃ raw, fs.slotImage t ino = some raw ∧ raw.verified t ino = some (.ok ()) ∧
    ∀ idx, findGroup fs.sb ino = .ok idx → fs.readInodeDesc t ino = some (InodeDesc.tryFrom raw)

theorem inodeSlot_of_findGroup {idx : Nat} (h : findGroup fs.sb ino = .ok idx) :
    fs.inodeSlot t ino = .ok ⟨(fs.groups idx).metadata.desc.inodeTableBid +
      (ino - 1) % fs.sb.inodesPerGroup * t.inodeSize / 4096,
      (ino - 1) % fs.sb.inodesPerGroup * t.inodeSize % 4096⟩ := by
  unfold findGroup at h
  split at h
  · cases h
  next hzero =>
  split at h
  · cases h
  split at h
  · cases h
  next hgroup =>
    cases h
    rw [inodeSlot, if_neg hzero, if_neg hgroup]
    dsimp only
    rw [mul_comm _ 4096, Nat.mul_add_div (by decide), Nat.mul_add_mod]

theorem slotVerifies {raw : RawInode} (himage : fs.slotImage t ino = some raw)
    (hcheck : raw.verified t ino = some (.ok ())) : fs.SlotVerifies t ino := by
  refine ⟨raw, himage, hcheck, fun idx hidx => ?_⟩
  rw [slotImage_ok (inodeSlot_of_findGroup hidx)] at himage
  obtain ⟨block, hblock, hraw⟩ := Option.map_eq_some_iff.mp himage
  unfold readInodeDesc
  rw [hidx]
  dsimp only at hblock hraw ⊢
  rw [hblock]
  dsimp only
  rw [hraw, hcheck]
  rfl

theorem slotVerifies_of_captured {f : Block → Block} (hlive : fs.handle.isSome = true)
    (hslot : fs.inodeSlot t ino = .ok slot) (hread : ∃ block, fs.image slot.bid = some block)
    (hev : fs.Evolves fs' (fs.patched slot.bid f) {slot.bid})
    (hcheck : ∀ b, (ofBlock (f b) slot.offset).verified t ino = some (.ok ())) :
    fs'.SlotVerifies t ino := by
  obtain ⟨block, hblock⟩ := hread
  refine slotVerifies ?_ (hcheck block)
  rw [slotImage_ok ((inodeSlot_congr hev.layout ino).trans hslot), hev.image, patched, overlay,
    if_pos ⟨rfl, hlive⟩, hblock]
  rfl

theorem writeBackInodeDesc_verifies (hsize : t.inodeSize = 256) (hr : fs.Ready) (hlive : fs.handle.isSome = true)
    (chain : OrphanChain) (ino : Nat) (desc : InodeDesc) (root : Buffer 60) :
    (writeBackInodeDesc t g chain ino desc root).Ends fs (fun _ fs' => fs'.SlotVerifies t ino)
      fun _ _ => True := by
  refine .bind_get ?_
  cases hslot : fs.inodeSlot t ino with
  | error e => exact .fail trivial
  | ok slot =>
    refine .bind_of_eq rfl ?_
    rw [if_pos hlive]
    refine (capturePatch_reads hr hlive _ _).mono (fun _ fs' h => ?_) fun _ _ _ => trivial
    refine slotVerifies_of_captured hlive hslot h.2 h.1 fun b => ?_
    rw [ofBlock_intoBlock _ _ (inodeSlot_fits hslot)]
    exact verified_stamped hsize ino _

theorem verified_patchDtime (hsize : t.inodeSize = 256) (hfit : slot.offset + 256 ≤ 4096) (ino next : Nat)
    (b : Block) :
    (ofBlock (patchDtime t ino slot next b) slot.offset).verified t ino = some (.ok ()) := by
  unfold patchDtime
  dsimp only
  split
  next hno => simp only [verified, hno]
  · rw [ofBlock_intoBlock _ _ hfit]
    exact verified_stamped hsize ino _

theorem journalPatchDtime_verifies (hsize : t.inodeSize = 256) (hr : fs.Ready) (hlive : fs.handle.isSome = true)
    (ino next : Nat) :
    (journalPatchDtime t g ino next).Ends fs (fun _ fs' => fs'.SlotVerifies t ino) fun _ _ => True := by
  refine .bind_get ?_
  cases hslot : fs.inodeSlot t ino with
  | error e => exact .fail trivial
  | ok slot =>
    refine .bind_of_eq rfl ?_
    refine (capturePatch_reads hr hlive _ _).mono (fun _ fs' h => ?_) fun _ _ _ => trivial
    exact slotVerifies_of_captured hlive hslot h.2 h.1 (verified_patchDtime hsize (inodeSlot_fits hslot) ino next)

end Fs

namespace Volume

def inodeTable (v : Volume) : InodeTable where
  inodeSize := v.geometry.inodeSize
  csumSeed := if v.sb.hasMetadataCsum then some v.metadataCsumSeed else none
  size_ge := v.geometry.size_ge
  size_dvd := v.geometry.size_dvd

end Volume

namespace Specimen

variable {f : SuperField} {inodeSize : Nat}

def superNum (inodeSize : Nat) : SuperField → Nat
  | .inodesCount | .inodesPerGroup => 16
  | .blocksCount => 64
  | .logBlockSize | .logFragSize => 2
  | .blocksPerGroup => 32768
  | .magic => 0xef53
  | .errors | .revLevel => 1
  | .firstIno => 11
  | .inodeSize => inodeSize
  | .featureIncompat => Feature.extents
  | .featureRoCompat => Feature.metadataCsum
  | _ => 0

def superBytes (inodeSize : Nat) : SuperField → List UInt8
  | .reserved => (List.range 664).map fun i => if i = 17 then 1 else 0
  | f => le f.width (superNum inodeSize f)

def unsealedSuper (inodeSize : Nat) : RawSuperBlock := rawSuper.build (superBytes inodeSize)

def sealedSuper (inodeSize : Nat) : RawSuperBlock :=
  rawSuper.put (unsealedSuper inodeSize) .checksum
    (le 4 (SuperBlock.superblockChecksum (unsealedSuper inodeSize)).toNat)

theorem length_superBytes (inodeSize : Nat) (f : SuperField) :
    (superBytes inodeSize f).length = rawSuper.width f := by
  cases f with
  | reserved => exact (List.length_map _).trans List.length_range
  | _ => exact le_length _ _

theorem bytes_sealedSuper (inodeSize : Nat) (hf : f ≠ .checksum) :
    rawSuper.bytes (sealedSuper inodeSize) f = superBytes inodeSize f := by
  refine (rawSuper.bytes_put_other _ (le_length 4 _) hf.symm).trans ?_
  exact rawSuper.bytes_build (length_superBytes inodeSize) f

theorem num_sealedSuper (hw : inodeSize < 2 ^ 16) (hf : f ≠ .checksum)
    (hr : f ≠ .reserved) : rawSuper.num (sealedSuper inodeSize) f = superNum inodeSize f := by
  rw [Record.num, bytes_sealedSuper inodeSize hf]
  cases f <;> first
    | exact absurd rfl hf
    | exact absurd rfl hr
    | exact (leVal_le _ _).trans (Nat.mod_eq_of_lt hw)
    | exact (leVal_le _ _).trans rfl

theorem verify_sealedSuper (inodeSize : Nat) :
    verifySuperblockChecksum (sealedSuper inodeSize) = .ok () := by
  have htype : byteAt (sealedSuper inodeSize) 0x175 = 1 := by
    have hbytes : slice (sealedSuper inodeSize) (rawSuper.offset .reserved) 664 =
        (List.range 664).map fun i => if i = 17 then 1 else 0 := bytes_sealedSuper inodeSize (by decide)
    exact List.map_inj_left.mp hbytes 17 (List.mem_range.mpr (by decide))
  have hcover : slice (sealedSuper inodeSize) 0 0x3FC = slice (unsealedSuper inodeSize) 0 0x3FC := by
    refine slice_splice_disjoint (.inl ?_)
    decide
  have hsum : rawSuper.num (sealedSuper inodeSize) .checksum =
      (superblockChecksum (sealedSuper inodeSize)).toNat := by
    rw [superblockChecksum, hcover, Record.num]
    refine (congrArg leVal (rawSuper.bytes_put_same _ (le_length 4 _))).trans ((leVal_le _ _).trans ?_)
    exact Nat.mod_eq_of_lt (UInt32.toNat_lt _)
  rw [verifySuperblockChecksum, require, if_pos htype, require, if_pos hsum]
  rfl

theorem sealedSuper_accepted (hw : inodeSize = 256 ∨ inodeSize = 512) :
    ∃ v, tryFrom (sealedSuper inodeSize) = .ok v ∧ v.sb.hasMetadataCsum = true ∧
      v.geometry.inodeSize = inodeSize := by
  have hlt : inodeSize < 2 ^ 16 := by omega
  have hnum : ∀ f, f ≠ .checksum → f ≠ .reserved →
      rawSuper.num (sealedSuper inodeSize) f = superNum inodeSize f := fun f hf hr => num_sealedSuper hlt hf hr
  have hformat : admitFormat (sealedSuper inodeSize) = .ok () := by
    simp only [admitFormat, hnum, ne_eq, reduceCtorEq, not_false_eq_true]
    rcases hw with rfl | rfl <;> decide
  have hinodes : ∃ geometry, admitInodes (sealedSuper inodeSize) = .ok geometry ∧
      geometry.inodeSize = inodeSize := by
    have hsize : rawSuper.num (sealedSuper inodeSize) .inodeSize = inodeSize := hnum _ (by decide) (by decide)
    have hrev : rawSuper.num (sealedSuper inodeSize) .revLevel = 1 := hnum _ (by decide) (by decide)
    have hgood : inodeSize ≤ 4096 ∧ IsPowerOfTwo inodeSize ∧ 256 ≤ inodeSize := by
      rcases hw with rfl | rfl <;> decide
    obtain ⟨geometry, hok, hgeo⟩ := admitInodes_ok (sealedSuper inodeSize)
      (by rw [hrev]; decide) (by rw [hsize]; exact hgood.1) (by rw [hsize]; exact hgood.2.1)
      (by rw [hsize]; exact hgood.2.2)
    exact ⟨geometry, hok, hgeo.trans hsize⟩
  have hfeatures : admitFeatures (sealedSuper inodeSize) = .ok 32 := by
    simp only [admitFeatures, hnum, ne_eq, reduceCtorEq, not_false_eq_true, verify_sealedSuper]
    rcases hw with rfl | rfl <;> decide
  have hgroups : ∃ n, admitGroups (sealedSuper inodeSize) inodeSize = .ok n := by
    simp only [admitGroups, hnum, ne_eq, reduceCtorEq, not_false_eq_true]
    rcases hw with rfl | rfl
    · exact ⟨1, by decide⟩
    · exact ⟨2, by decide⟩
  have hcounts : ∃ counts, admitCounts (sealedSuper inodeSize) false = .ok counts := by
    simp only [admitCounts, hnum, ne_eq, reduceCtorEq, not_false_eq_true]
    refine ⟨⟨64, 0, 1⟩, ?_⟩
    rcases hw with rfl | rfl <;> decide
  have hnarrow : Feature.has (rawSuper.num (sealedSuper inodeSize) .featureIncompat) Feature.is64bit = false := by
    rw [hnum _ (by decide) (by decide)]
    rcases hw with rfl | rfl <;> decide
  have hcsum : Feature.has (rawSuper.num (sealedSuper inodeSize) .featureRoCompat) Feature.metadataCsum = true := by
    rw [hnum _ (by decide) (by decide)]
    rcases hw with rfl | rfl <;> decide
  obtain ⟨geometry, hinodes, hsize⟩ := hinodes
  obtain ⟨n, hgroups⟩ := hgroups
  obtain ⟨counts, hcounts⟩ := hcounts
  generalize sealedSuper inodeSize = raw at *
  rw [← hsize] at hgroups
  have hbind : ∀ {α β : Type} (a : α) (f : α → Except Fault β), (Except.ok a >>= f) = f a := fun _ _ => rfl
  simp only [tryFrom, hformat, hinodes, hfeatures, hgroups, hnarrow, hcounts, hbind]
  exact ⟨_, rfl, hcsum, hsize⟩

end Specimen

end Ext4
