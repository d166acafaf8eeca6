import Ext4.Alloc.VolumeSpec
import Ext4.Inode.Slot

namespace Ext4

open Bytes RawInode

namespace Layout

variable {t : InodeTable} {layout : Layout} {idx b : Nat}

def InTable (layout : Layout) (idx b : Nat) : Prop :=
  (layout.group idx).inodeTableBid ≤ b ∧
    b < (layout.group idx).inodeTableBid + (layout.group idx).nrInodeTableBlocksPerGroup

def Tables (layout : Layout) (b : Nat) : Prop := ∃ idx < layout.sb.nrBlockGroups, layout.InTable idx b

structure Tabled (t : InodeTable) (layout : Layout) : Prop where
  perGroup_pos : 0 < layout.sb.inodesPerGroup
  room : ∀ idx < layout.sb.nrBlockGroups, layout.sb.inodesPerGroup * t.inodeSize ≤
    (layout.group idx).nrInodeTableBlocksPerGroup * 4096
  apart : ∀ i < layout.sb.nrBlockGroups, ∀ j < layout.sb.nrBlockGroups, ∀ b,
    layout.InTable i b → layout.InTable j b → i = j
  system : ∀ b, layout.Tables b → b ∉ layout.systemBids

end Layout

namespace RawInode

theorem ofBlock_congr {a b : Block} {off : Nat}
    (h : ∀ i, off ≤ i → i < off + 256 → byteAt a i = byteAt b i) : ofBlock a off = ofBlock b off := by
  funext i
  exact h _ (Nat.le_add_right _ _) (Nat.add_lt_add_left i.isLt off)

theorem num_stamped (t : InodeTable) (ino : Nat) (raw : RawInode) {f : RawField}
    (hlo : f ≠ .checksumLo) (hhi : f ≠ .checksumHi) :
    rawInode.num (raw.stamped t ino) f = rawInode.num raw f := by
  rw [Record.num, Record.num, bytes_stamped t ino raw hlo hhi]

theorem num_ofBlock (b : Block) (off : Nat) (f : RawField) :
    rawInode.num (ofBlock b off) f = getLE b (off + rawInode.offset f) (rawInode.width f) := by
  have hfit := rawInode.offset_add_width_le f
  rw [Record.num, Record.bytes, getLE]
  refine congrArg leVal (List.map_congr_left fun i hi => ?_)
  have hi := List.mem_range.mp hi
  simp [byteAt, ofBlock, add_assoc, show rawInode.offset f + i < 256 by omega]

end RawInode

namespace InodeDesc

theorem dtime_capturedRaw_listed (t : InodeTable) (ino : Nat) (successor : Option Nat) (desc : InodeDesc)
    (root : Buffer 60) :
    rawInode.num (desc.capturedRaw t ino (some successor) root) .dtime =
      successor.getD 0 % 256 ^ 4 := by
  rw [capturedRaw, num_stamped t ino _ (by decide) (by decide)]
  have hput := rawInode.bytes_put_same (desc.toRawInode root) (f := .dtime)
    (v := le 4 (successor.getD 0)) (by simp [rawInode, RawField.width])
  rw [Record.num, hput, leVal_le]

end InodeDesc

namespace Fs

variable {t : InodeTable} {fs fs' : Fs} {ino ino' : Nat} {slot slot' : InodeSlot}

theorem inodeSlot_congr (h : fs'.layout = fs.layout) (ino : Nat) :
    fs'.inodeSlot t ino = fs.inodeSlot t ino := by
  have hsb : ∀ f : SuperBlock → Nat, f fs'.sb.frame = f fs.sb.frame := fun f =>
    congrArg (fun l : Layout => f l.sb) h
  have hnr : fs'.sb.nrBlockGroups = fs.sb.nrBlockGroups := hsb SuperBlock.nrBlockGroups
  have hper : fs'.sb.inodesPerGroup = fs.sb.inodesPerGroup := hsb SuperBlock.inodesPerGroup
  have htable : ∀ idx, (fs'.groups idx).metadata.desc.inodeTableBid =
      (fs.groups idx).metadata.desc.inodeTableBid := fun idx =>
    congrArg (fun l : Layout => (l.group idx).inodeTableBid) h
  simp only [inodeSlot, hnr, hper, htable]

theorem inodeSlot_ok (hpos : 0 < fs.sb.inodesPerGroup)
    (hroom : ∀ idx < fs.sb.nrBlockGroups, fs.sb.inodesPerGroup * t.inodeSize ≤
      (fs.groups idx).nrInodeTableBlocksPerGroup * 4096) (h : fs.inodeSlot t ino = .ok slot) :
    ∃ idx < fs.sb.nrBlockGroups, ∃ k < fs.sb.inodesPerGroup,
      ino = idx * fs.sb.inodesPerGroup + k + 1 ∧ fs.layout.InTable idx slot.bid ∧
      slot.bid * 4096 + slot.offset =
        (fs.groups idx).metadata.desc.inodeTableBid * 4096 + k * t.inodeSize := by
  unfold inodeSlot at h
  split at h
  · cases h
  split at h
  · cases h
  next hzero hidx =>
  dsimp only at h
  cases h
  have hlt := not_le.mp hidx
  have hk := Nat.mod_lt (ino - 1) hpos
  refine ⟨_, hlt, _, hk, ?_, ?_, ?_⟩
  · have hsplit := Nat.div_add_mod' (ino - 1) fs.sb.inodesPerGroup
    omega
  · have hroom := hroom _ hlt
    have hmul : (ino - 1) % fs.sb.inodesPerGroup * t.inodeSize <
        fs.sb.inodesPerGroup * t.inodeSize :=
      Nat.mul_lt_mul_of_pos_right hk (lt_of_lt_of_le (by decide) t.size_ge)
    refine ⟨?_, ?_⟩
    · change (fs.groups _).metadata.desc.inodeTableBid ≤ _
      dsimp only
      omega
    · change _ < (fs.groups _).metadata.desc.inodeTableBid + (fs.groups _).nrInodeTableBlocksPerGroup
      dsimp only
      omega
  · dsimp only
    omega

theorem inodeSlot_table (ht : fs.layout.Tabled t) (h : fs.inodeSlot t ino = .ok slot) :
    fs.layout.Tables slot.bid := by
  obtain ⟨idx, hidx, k, hk, -, htable, -⟩ := inodeSlot_ok ht.perGroup_pos ht.room h
  exact ⟨idx, hidx, htable⟩

theorem slots_apart (hpos : 0 < fs.sb.inodesPerGroup)
    (hroom : ∀ idx < fs.sb.nrBlockGroups, fs.sb.inodesPerGroup * t.inodeSize ≤
      (fs.groups idx).nrInodeTableBlocksPerGroup * 4096)
    (hapart : ∀ i < fs.sb.nrBlockGroups, ∀ j < fs.sb.nrBlockGroups, ∀ b,
      fs.layout.InTable i b → fs.layout.InTable j b → i = j) (h : fs.inodeSlot t ino = .ok slot)
    (h' : fs.inodeSlot t ino' = .ok slot') (hne : ino ≠ ino') (hbid : slot.bid = slot'.bid) :
    slot'.offset + 256 ≤ slot.offset ∨ slot.offset + 256 ≤ slot'.offset := by
  obtain ⟨i, hi, k, hk, rfl, htable, hbyte⟩ := inodeSlot_ok hpos hroom h
  obtain ⟨j, hj, l, hl, rfl, htable', hbyte'⟩ := inodeSlot_ok hpos hroom h'
  rw [hbid] at htable hbyte
  have hij : i = j := hapart i hi j hj _ htable htable'
  subst hij
  have hge := t.size_ge
  rcases Nat.lt_trichotomy k l with hlt | heq | hlt
  · have hmul := Nat.mul_le_mul_right t.inodeSize hlt
    rw [Nat.succ_mul] at hmul
    omega
  · rw [heq] at hne
    exact absurd rfl hne
  · have hmul := Nat.mul_le_mul_right t.inodeSize hlt
    rw [Nat.succ_mul] at hmul
    omega

def slotImage (t : InodeTable) (fs : Fs) (ino : Nat) : Option RawInode :=
  match fs.inodeSlot t ino with
  | .error _ => none
  | .ok slot => (fs.image slot.bid).map fun b => RawInode.ofBlock b slot.offset

theorem slotImage_ok (h : fs.inodeSlot t ino = .ok slot) :
    fs.slotImage t ino = (fs.image slot.bid).map fun b => ofBlock b slot.offset := by
  rw [slotImage, h]

theorem slotImage_congr (ht : fs.layout.Tabled t) (hlayout : fs'.layout = fs.layout)
    (himage : ∀ b, fs.layout.Tables b → fs'.image b = fs.image b) (ino : Nat) :
    fs'.slotImage t ino = fs.slotImage t ino := by
  unfold slotImage
  rw [inodeSlot_congr hlayout]
  cases h : fs.inodeSlot t ino with
  | error e => rfl
  | ok slot =>
    dsimp only
    rw [himage slot.bid (inodeSlot_table ht h)]

theorem slotImage_patched (ht : fs.layout.Tabled t) (hlayout : fs'.layout = fs.layout)
    (h : fs.inodeSlot t ino = .ok slot) {f : Block → Block} (hself : fs'.image slot.bid = (fs.image slot.bid).map f)
    (hrest : ∀ b, b ≠ slot.bid → fs'.image b = fs.image b)
    (hframe : ∀ b i, i < slot.offset ∨ slot.offset + 256 ≤ i → byteAt (f b) i = byteAt b i)
    (hne : ino' ≠ ino) : fs'.slotImage t ino' = fs.slotImage t ino' := by
  unfold slotImage
  rw [inodeSlot_congr hlayout]
  cases h' : fs.inodeSlot t ino' with
  | error e => rfl
  | ok slot' =>
    dsimp only
    by_cases hbid : slot'.bid = slot.bid
    · have hoff := slots_apart ht.perGroup_pos ht.room ht.apart h' h hne hbid
      rw [hbid, hself, Option.map_map]
      congr 1
      funext b
      refine ofBlock_congr fun i hlo hhi => hframe b i ?_
      omega
    · rw [hrest _ hbid]

section

variable (t : InodeTable) (ino next : Nat) (b : Block)

theorem byteAt_patchDtime {i : Nat}
    (h : i < slot.offset ∨ slot.offset + 256 ≤ i) :
    byteAt (patchDtime t ino slot next b) i = byteAt b i := by
  have hfit := rawInode.offset_add_width_le .dtime
  have hput : byteAt (putLE b (slot.offset + rawInode.offset .dtime) 4 next) i = byteAt b i := by
    apply byteAt_splice_out
    rw [le_length]
    change rawInode.offset .dtime + 4 ≤ 256 at hfit
    omega
  unfold patchDtime
  split
  · exact hput
  · exact (byteAt_intoBlock _ _ h).trans hput

theorem dtime_patchDtime (hfit : slot.offset + 256 ≤ 4096) :
    rawInode.num (ofBlock (patchDtime t ino slot next b) slot.offset) .dtime =
      next % 256 ^ 4 := by
  have hfield := rawInode.offset_add_width_le .dtime
  have hput : rawInode.num (ofBlock (putLE b (slot.offset + rawInode.offset .dtime) 4 next)
      slot.offset) .dtime = next % 256 ^ 4 := by
    rw [num_ofBlock]
    exact getLE_putLE_same (by change rawInode.offset .dtime + 4 ≤ 256 at hfield; omega)
  unfold patchDtime
  split
  · exact hput
  · rw [ofBlock_intoBlock _ _ hfit, num_stamped t ino _ (by decide) (by decide)]
    exact hput

end

end Fs

end Ext4
