import Ext4.Mount.Recovery

namespace Ext4

open Bytes Op SuperBlock RawInode Function

variable {g : JournalGeometry}

namespace RawInode

variable {raw raw' raw'' : RawInode}

def Alike (raw raw' : RawInode) : Prop :=
  ∀ f, f ≠ .dtime → f ≠ .checksumLo → f ≠ .checksumHi → rawInode.bytes raw' f = rawInode.bytes raw f

theorem Alike.refl (raw : RawInode) : Alike raw raw := fun _ _ _ _ => rfl

theorem Alike.trans (h1 : Alike raw raw') (h2 : Alike raw' raw'') : Alike raw raw'' := fun f hd hlo hhi =>
  (h2 f hd hlo hhi).trans (h1 f hd hlo hhi)

theorem Alike.num (h : Alike raw raw') {f : RawField} (hd : f ≠ .dtime) (hlo : f ≠ .checksumLo)
    (hhi : f ≠ .checksumHi) : rawInode.num raw' f = rawInode.num raw f := by
  rw [Record.num, Record.num, h f hd hlo hhi]

theorem bytes_ofBlock (b : Block) (off : Nat) (f : RawField) :
    rawInode.bytes (ofBlock b off) f = slice b (off + rawInode.offset f) (rawInode.width f) := by
  have hfit := rawInode.offset_add_width_le f
  rw [Record.bytes, slice, slice]
  refine List.map_congr_left fun i hi => ?_
  have hi := List.mem_range.mp hi
  simp [byteAt, ofBlock, add_assoc, show rawInode.offset f + i < 256 by omega]

theorem Alike.patchDtime (t : InodeTable) (ino next : Nat) {slot : InodeSlot} (b : Block)
    (hfit : slot.offset + 256 ≤ 4096) :
    Alike (ofBlock b slot.offset) (ofBlock (Fs.patchDtime t ino slot next b) slot.offset) := by
  intro f hd hlo hhi
  have hput : rawInode.bytes (ofBlock (putLE b (slot.offset + rawInode.offset .dtime) 4 next) slot.offset) f =
      rawInode.bytes (ofBlock b slot.offset) f := by
    rw [bytes_ofBlock, bytes_ofBlock]
    refine List.map_congr_left fun i hi => ?_
    have hi := List.mem_range.mp hi
    have hapart := Record.offsetIn_disjoint rawInode.width (rawInode.mem_fields f) (rawInode.mem_fields .dtime) hd
    change rawInode.offset f + rawInode.width f ≤ rawInode.offset .dtime ∨
      rawInode.offset .dtime + 4 ≤ rawInode.offset f at hapart
    apply byteAt_splice_out
    rw [le_length]
    omega
  unfold Fs.patchDtime
  split
  · exact hput
  · rw [ofBlock_intoBlock _ _ hfit, bytes_stamped t ino _ hlo hhi]
    exact hput

end RawInode

namespace Fs

variable {t : InodeTable} {C S S' : Nat → Prop} {O O' : List Nat} {fs fs' fs'' : Fs} {ino : Nat}

def SlotShows (t : InodeTable) (fs : Fs) (ino : Nat) (raw : RawInode) : Prop :=
  ∃ slot block, fs.inodeSlot t ino = .ok slot ∧ fs.Shows slot.bid block ∧
    raw = RawInode.ofBlock block slot.offset

structure Sweeps (t : InodeTable) (C S : Nat → Prop) (O : List Nat) (fs fs' : Fs) : Prop where
  slot : ∀ x, fs'.inodeSlot t x = fs.inodeSlot t x
  contains : ∀ b, fs'.layout.Contains b ↔ fs.layout.Contains b
  system : ∀ b, b ∈ fs'.layout.systemBids ↔ b ∈ fs.layout.systemBids
  tables : ∀ b, fs'.layout.Tables b ↔ fs.layout.Tables b
  used : ∀ b, fs.layout.Contains b → b ∉ O → fs'.blockUsed b = fs.blockUsed b
  image : ∀ b, fs.layout.Contains b → ¬fs.Guarded b → fs.blockUsed b = true → b ∉ O →
    fs'.image b = fs.image b
  bits : ∀ x, ¬S x → fs'.isInodeAllocated x = fs.isInodeAllocated x
  shows : ∀ x raw, ¬S x → fs'.SlotShows t x raw → ∃ raw₀, fs.SlotShows t x raw₀ ∧ raw₀.Alike raw
  newest : ∀ x raw, ¬S x → fs.slotImage t x = some raw →
    ∃ raw', fs'.slotImage t x = some raw' ∧ raw.Alike raw'
  unlisted : ∀ x, ¬C x → fs'.slotImage t x = fs.slotImage t x

namespace Sweeps

theorem guarded (h : fs.Sweeps t C S O fs') (b : Nat) : fs'.Guarded b ↔ fs.Guarded b :=
  or_congr (h.system b) (h.tables b)

theorem trans (h1 : fs.Sweeps t C S O fs') (h2 : fs'.Sweeps t C S O fs'') : fs.Sweeps t C S O fs'' where
  slot x := (h2.slot x).trans (h1.slot x)
  contains b := (h2.contains b).trans (h1.contains b)
  system b := (h2.system b).trans (h1.system b)
  tables b := (h2.tables b).trans (h1.tables b)
  used b hb hO := (h2.used b ((h1.contains b).mpr hb) hO).trans (h1.used b hb hO)
  image b hb hg hu hO := by
    refine (h2.image b ((h1.contains b).mpr hb) (mt (h1.guarded b).mp hg) ?_ hO).trans (h1.image b hb hg hu hO)
    rw [h1.used b hb hO]
    exact hu
  bits x hx := (h2.bits x hx).trans (h1.bits x hx)
  shows x raw hx h := by
    obtain ⟨raw1, h, halike2⟩ := h2.shows x raw hx h
    obtain ⟨raw0, h, halike1⟩ := h1.shows x raw1 hx h
    exact ⟨raw0, h, halike1.trans halike2⟩
  newest x raw hx h := by
    obtain ⟨raw1, h, halike1⟩ := h1.newest x raw hx h
    obtain ⟨raw2, h, halike2⟩ := h2.newest x raw1 hx h
    exact ⟨raw2, h, halike1.trans halike2⟩
  unlisted x hx := (h2.unlisted x hx).trans (h1.unlisted x hx)

theorem mono (h : fs.Sweeps t C S O fs') (hS : ∀ x, S x → S' x) (hO : ∀ b ∈ O, b ∈ O') :
    fs.Sweeps t C S' O' fs' :=
  { h with
    used := fun b hb hn => h.used b hb (mt (hO b) hn)
    image := fun b hb hg hu hn => h.image b hb hg hu (mt (hO b) hn)
    bits := fun x hx => h.bits x (mt (hS x) hx)
    shows := fun x raw hx => h.shows x raw (mt (hS x) hx)
    newest := fun x raw hx => h.newest x raw (mt (hS x) hx) }

theorem of_tables (hslot : ∀ x, fs'.inodeSlot t x = fs.inodeSlot t x)
    (hcontains : ∀ b, fs'.layout.Contains b ↔ fs.layout.Contains b)
    (hsystem : ∀ b, b ∈ fs'.layout.systemBids ↔ b ∈ fs.layout.systemBids)
    (htables : ∀ b, fs'.layout.Tables b ↔ fs.layout.Tables b)
    (hused : ∀ b, fs.layout.Contains b → b ∉ O → fs'.blockUsed b = fs.blockUsed b)
    (himage : ∀ b, fs.layout.Contains b → ¬fs.Guarded b → fs.blockUsed b = true → b ∉ O → fs'.image b = fs.image b)
    (hbits : ∀ x, ¬S x → fs'.isInodeAllocated x = fs.isInodeAllocated x) (htab : fs.layout.Tabled t)
    (hshows : ∀ b v, fs.layout.Tables b → fs'.Shows b v → fs.Shows b v)
    (hnewest : ∀ b, fs.layout.Tables b → fs'.image b = fs.image b) : fs.Sweeps t C S O fs' := by
  have hsame : ∀ x, fs'.slotImage t x = fs.slotImage t x := by
    intro x
    unfold slotImage
    rw [hslot x]
    cases hx : fs.inodeSlot t x with
    | error e => rfl
    | ok slot =>
      dsimp only
      rw [hnewest slot.bid (inodeSlot_table htab hx)]
  refine ⟨hslot, hcontains, hsystem, htables, hused, himage, hbits, fun x raw _ hraw => ?_, fun x raw _ hraw => ?_,
    fun x _ => hsame x⟩
  · obtain ⟨slot, block, hx, hshow, rfl⟩ := hraw
    rw [hslot x] at hx
    exact ⟨_, ⟨slot, block, hx, hshows _ _ (inodeSlot_table htab hx) hshow, rfl⟩, .refl _⟩
  · rw [← hsame x] at hraw
    exact ⟨raw, hraw, .refl _⟩

theorem refl (htab : fs.layout.Tabled t) : fs.Sweeps t C S O fs :=
  .of_tables (fun _ => rfl) (fun _ => Iff.rfl) (fun _ => Iff.rfl) (fun _ => Iff.rfl) (fun _ _ _ => rfl)
    (fun _ _ _ _ _ => rfl) (fun _ _ => rfl) htab (fun _ _ _ h => h) fun _ _ => rfl

theorem turns (htab : fs.layout.Tabled t) (h : fs.Turns fs') (hp : fs.Paces fs') : fs.Sweeps t C S O fs' := by
  have hl := h.layout
  have hslot : ∀ x, fs'.inodeSlot t x = fs.inodeSlot t x := inodeSlot_congr hl
  refine .of_tables hslot (fun b => by rw [hl]) (fun b => by rw [hl]) (fun b => by rw [hl])
    (fun b _ _ => by rw [h.blockUsed]) (fun b _ _ _ _ => h.image b) (fun x _ => ?_) htab (fun b v _ hv => ?_)
    fun b _ => h.image b
  · exact isInodeAllocated_congr (by rw [h.sb]) (by rw [h.sb]) (by rw [h.sb]) (fun _ => by rw [h.groups]) x
  · rcases hv with hv | hv | hv
    · exact hp.device b v hv
    · exact hp.retained b v hv
    · exact .inr (.inr (by rw [← h.image b]; exact hv))

theorem captured {slot : InodeSlot} {f : Block → Block} (hz : fs.Zoned t)
    (hslot : fs.inodeSlot t ino = .ok slot) (hev : fs.Evolves fs' (fs.patched slot.bid f) {slot.bid})
    (hstill : fs.Still fs') (hread : ∃ block, fs.image slot.bid = some block)
    (hframe : ∀ b i, i < slot.offset ∨ slot.offset + 256 ≤ i → byteAt (f b) i = byteAt b i) (hC : C ino)
    (hS : ¬S ino → ∀ b, (ofBlock b slot.offset).Alike (ofBlock (f b) slot.offset)) :
    fs.Sweeps t C S O fs' := by
  have hl : fs'.layout = fs.layout := hev.layout
  have hsame : ∀ x, fs'.inodeSlot t x = fs.inodeSlot t x := inodeSlot_congr hl
  have htable : fs.layout.Tables slot.bid := inodeSlot_table hz.tabled hslot
  have hused : fs'.blockUsed = fs.blockUsed := by
    funext b
    simp only [blockUsed, groupOf, hev.sb, hev.groups]
  have hself : fs'.image slot.bid = (fs.image slot.bid).map f := by
    rw [hev.image, patched, overlay, hz.live]
    simp
  have hrest : ∀ b, b ≠ slot.bid → fs'.image b = fs.image b := by
    intro b hb
    rw [hev.image, patched, overlay]
    simp [hb]
  have hother : ∀ x, x ≠ ino → fs'.slotImage t x = fs.slotImage t x := fun x hx =>
    slotImage_patched hz.tabled hl hslot hself hrest hframe hx
  have hkept : ∀ x slot' block, x ≠ ino → fs.inodeSlot t x = .ok slot' → slot'.bid = slot.bid →
      ofBlock (f block) slot'.offset = ofBlock block slot'.offset := by
    intro x slot' block hx hx' hbid
    have hoff := slots_apart hz.tabled.perGroup_pos hz.tabled.room hz.tabled.apart hx' hslot hx hbid
    refine ofBlock_congr fun i hlo hhi => hframe block i ?_
    omega
  refine ⟨hsame, fun b => by rw [hl], fun b => by rw [hl], fun b => by rw [hl], fun b _ _ => by rw [hused],
    fun b _ hg _ _ => hrest b fun heq => hg (heq ▸ .inr htable), fun x _ => ?_, fun x raw hx hraw => ?_,
    fun x raw hx hraw => ?_, fun x hx => hother x fun heq => hx (heq ▸ hC)⟩
  · exact isInodeAllocated_congr (by rw [hev.sb]) (by rw [hev.sb]) (by rw [hev.sb])
      (fun _ => by rw [hev.groups]) x
  · obtain ⟨slot', block, hx', hshow, rfl⟩ := hraw
    rw [hsame x] at hx'
    rcases hshow with hshow | hshow | hshow
    · rw [hev.device] at hshow
      exact ⟨_, ⟨slot', block, hx', .inl hshow, rfl⟩, .refl _⟩
    · exact ⟨_, ⟨slot', block, hx', .inr (.inl (hstill.retained _ _ hshow)), rfl⟩, .refl _⟩
    · rcases Decidable.eq_or_ne slot'.bid slot.bid with hbid | hbid
      · obtain ⟨old, hold⟩ := hread
        rw [hbid, hself, hold] at hshow
        obtain rfl : f old = block := Option.some.inj hshow
        refine ⟨_, ⟨slot', old, hx', .inr (.inr (by rw [hbid]; exact hold)), rfl⟩, ?_⟩
        rcases Decidable.eq_or_ne x ino with rfl | hne
        · rw [hslot] at hx'
          cases hx'
          exact hS hx old
        · rw [hkept x slot' old hne hx' hbid]
          exact .refl _
      · rw [hrest _ hbid] at hshow
        exact ⟨_, ⟨slot', block, hx', .inr (.inr hshow), rfl⟩, .refl _⟩
  · rcases Decidable.eq_or_ne x ino with rfl | hne
    · obtain ⟨old, hold⟩ := hread
      rw [slotImage_ok hslot, hold] at hraw
      cases hraw
      refine ⟨_, ?_, hS hx old⟩
      rw [slotImage_ok (by rw [hsame x]; exact hslot), hself, hold]
      rfl
    · rw [← hother x hne] at hraw
      exact ⟨raw, hraw, .refl _⟩

theorem head {fs1 : Fs} {f : Block → Block} (hz : fs.Zoned t)
    (hev : fs.Evolves fs1 (fs.patched superblockBid f) {superblockBid})
    (hstill : fs.Still fs1) (head : Option Nat) : fs.Sweeps t C S O (fs1.withHead head) := by
  have hl : fs1.layout = fs.layout := hev.layout
  have hrest : ∀ b, b ≠ superblockBid → (fs1.withHead head).image b = fs.image b := by
    intro b hb
    change fs1.image b = _
    rw [hev.image, patched, overlay, if_neg fun h => hb h.1]
  have htable : ∀ b, fs.layout.Tables b → b ≠ superblockBid := fun b hb heq =>
    hz.tabled.system b hb (heq ▸ Layout.superblockBid_mem _)
  refine .of_tables (fun x => ?_) (fun b => ?_) (fun b => ?_) (fun b => ?_) (fun b _ _ => ?_)
    (fun b _ hg _ _ => hrest b fun heq => hg (.inl (heq ▸ Layout.superblockBid_mem _))) (fun x _ => ?_)
    hz.tabled (fun b v hb hv => ?_) fun b hb => hrest b (htable b hb)
  · exact inodeSlot_congr hl x
  · change fs1.layout.Contains b ↔ _
    rw [hl]
  · change b ∈ fs1.layout.systemBids ↔ _
    rw [hl]
  · change fs1.layout.Tables b ↔ _
    rw [hl]
  · change fs1.blockUsed b = _
    rw [hev.blockUsed]
  · exact isInodeAllocated_congr (congrArg inodesCount hev.sb)
      (congrArg inodesPerGroup hev.sb) (congrArg nrBlockGroups hev.sb)
      (fun idx => congrArg (fun groups => (groups idx).metadata.inodeBitmap) hev.groups) x
  · rcases hv with hv | hv | hv
    · exact .inl (by rw [← hev.device]; exact hv)
    · exact .inr (.inl (hstill.retained b v hv))
    · exact .inr (.inr (by rw [← hrest b (htable b hb)]; exact hv))

theorem of_aside (hz : fs.Zoned t) (ha : fs.Aside fs') (ht : fs.Tends S fs')
    (hused : ∀ b, fs.layout.Contains b → b ∉ O → fs'.blockUsed b = fs.blockUsed b)
    (himage : ∀ b, ¬fs.Guarded b → fs.blockUsed b = true → b ∉ O → fs'.image b = fs.image b) :
    fs.Sweeps t C S O fs' := by
  have hl := ha.layout
  refine .of_tables (inodeSlot_congr hl) (fun b => by rw [hl]) (fun b => by rw [hl]) (fun b => by rw [hl])
    hused (fun b _ => himage b) ht.inodes hz.tabled (fun b v hb hv => ?_) ha.tables
  rcases hv with hv | hv | hv
  · exact .inl (by rw [← ht.device hz.live]; exact hv)
  · exact .inr (.inl (ht.retained b v hv))
  · exact .inr (.inr (by rw [← ha.tables b hb]; exact hv))

end Sweeps

structure Dwindles (fs' : Fs) (old new : List Nat) : Prop where
  subset : ∀ b ∈ new, b ∈ old
  freed : ∀ b ∈ old, b ∉ new → fs'.blockUsed b = false

theorem Dwindles.trans {old mid new : List Nat} (h1 : fs.Dwindles old mid) (hs : fs.Sweeps t C S mid fs')
    (h2 : fs'.Dwindles mid new) (hc : ∀ b ∈ old, fs.layout.Contains b) : fs'.Dwindles old new where
  subset b hb := h1.subset b (h2.subset b hb)
  freed b hb hn := by
    rcases Classical.em (b ∈ mid) with hmid | hmid
    · exact h2.freed b hmid hn
    · rw [hs.used b (hc b hb) hmid]
      exact h1.freed b hb hmid

theorem Trades.dwindles {old new : List Nat} (h : fs.Trades fs' old new) (he : fs.Ebbs fs')
    (ho : fs.Owns old) : fs'.Dwindles old new where
  subset b hb := by
    rcases (h.origin b hb).2 with hold | hclear
    · exact hold
    · have hused : fs'.blockUsed b = true := by
        rw [h.used (h.origin b hb).1]
        simp [hb]
      rw [he.blockUsed hused] at hclear
      cases hclear
  freed b hb hnew := by
    rw [h.used (ho.contains b hb)]
    simp [hb, hnew]

theorem findGroup_lt {sb : SuperBlock} {idx : Nat} (h : findGroup sb ino = .ok idx) :
    idx < sb.nrBlockGroups := by
  unfold findGroup at h
  split at h
  · cases h
  split at h
  · cases h
  split at h
  · cases h
  next hlt =>
    cases h
    omega

structure Releases (ino : Nat) (fs fs' : Fs) : Prop where
  bit : fs'.isInodeAllocated ino = false
  used : fs'.blockUsed = fs.blockUsed
  image : ∀ b, b ∉ fs.layout.systemBids → fs'.image b = fs.image b

theorem groupFreeInode_releases {idx : Nat} (hr : fs.Ready) (type : InodeType)
    (hfind : findGroup fs.sb ino = .ok idx) :
    (BlockGroup.freeInode g idx ((ino - 1) % fs.sb.inodesPerGroup) type).Ends fs
      (fun _ fs' => fs'.sb = fs.sb ∧ fs'.Ready ∧ fs.Releases ino fs') fun _ _ => True := by
  rcases Bool.eq_false_or_eq_true
    ((fs.groups idx).metadata.inodeBitmap.isAllocated ((ino - 1) % fs.sb.inodesPerGroup)) with hset | hclear
  · have hbit : (ino - 1) % fs.sb.inodesPerGroup < 8 * 4096 := by
      rw [← not_le]
      intro hge
      have hout : (fs.groups idx).metadata.inodeBitmap.isAllocated ((ino - 1) % fs.sb.inodesPerGroup) = false :=
        bitAt_of_ge hge
      rw [hout] at hset
      cases hset
    refine (BlockGroup.freeInode_ends hr type hset).mono (fun _ fs1 h1 => ?_) fun _ _ _ => trivial
    obtain ⟨metadata, hrel, hev⟩ := h1
    have hsb : fs1.sb = fs.sb := hev.sb
    refine ⟨hsb, hev.ready, ?_, ?_, fun b hb => ?_⟩
    · simp only [isInodeAllocated, hsb, hfind, hev.groups, Fs.setMetadata, update_self, hrel.bitmap]
      rw [IdBitmap.isAllocated, IdBitmap.free, bitAt_setBit _ _ hbit, if_pos rfl]
    · rw [hev.blockUsed]
      funext b
      change ((update fs.groups idx _) (fs.groupOf b)).metadata.blockBitmap.isAllocated
        (b - ((update fs.groups idx _) (fs.groupOf b)).firstBlock) = _
      rcases Decidable.eq_or_ne (fs.groupOf b) idx with heq | hne
      · rw [heq, update_self, hrel.blocks, blockUsed, heq]
      · rw [update_of_ne hne]
        rfl
    · have hmeta : ∀ x ∈ (fs.groups idx).metaBids, b ≠ x := fun x hx heq =>
        hb (heq ▸ metaBids_subset (findGroup_lt hfind) hx)
      have hdesc := hmeta _ (BlockGroup.descBlockBid_mem (fs.groups idx))
      have hbitmap := hmeta _ (BlockGroup.inodeBitmapBid_subset (fs.groups idx) (Finset.mem_singleton_self _))
      rw [hev.image, BlockGroup.publishImage, overlay, if_neg fun h => hdesc h.1, overlay,
        if_neg fun h => hbitmap h.1]
  · refine .bind_get ?_
    dsimp only
    rw [if_pos hclear]
    refine .ret ⟨rfl, hr, ?_, rfl, fun _ _ => rfl⟩
    simp only [isInodeAllocated, hfind]
    exact hclear

theorem freeInode_releases (hr : fs.Ready) (ino : Nat) (type : InodeType) :
    (freeInode g ino type).Ends fs (fun _ fs' => fs.Releases ino fs') fun _ _ => True := by
  refine .bind_get ?_
  cases hfind : findGroup fs.sb ino with
  | error e => exact .bind (Q := fun _ _ => False) (.fail trivial) fun _ _ hf => hf.elim
  | ok idx =>
    refine Op.Ends.bind_of_eq (Op.ofExcept_ok rfl fs) ?_
    refine (groupFreeInode_releases hr type hfind).bind fun was fs1 h1 => ?_
    obtain ⟨hsb, hr1, h1⟩ := h1
    split
    · refine (updateSb_ends hr1 _).mono (fun _ fs2 h2 => ?_) fun _ _ _ => trivial
      obtain ⟨sb, hok, hev⟩ := h2
      have hframe := incFreeInodes_ok hok
      have hfield : ∀ f : SuperBlock → Nat, f sb.frame = f fs1.sb.frame := fun f => congrArg f hframe
      have hsb2 : fs2.sb = sb := hev.sb
      have hgroups : fs2.groups = fs1.groups := hev.groups
      refine ⟨?_, ?_, fun b hb => ?_⟩
      · rw [← h1.bit]
        refine isInodeAllocated_congr ?_ ?_ ?_ (fun _ => by rw [hgroups]) ino
        · rw [hsb2]
          exact hfield inodesCount
        · rw [hsb2]
          exact hfield inodesPerGroup
        · rw [hsb2]
          exact hfield nrBlockGroups
      · rw [← h1.used]
        have hfirst : sb.firstDataBlock = fs1.sb.firstDataBlock := hfield firstDataBlock
        have hper : sb.blocksPerGroup = fs1.sb.blocksPerGroup := hfield blocksPerGroup
        funext b
        simp only [blockUsed, groupOf, hsb2, hgroups, hfirst, hper]
      · rw [← h1.image b hb, hev.image, patched, overlay, if_neg]
        rintro ⟨rfl, -⟩
        exact hb (Layout.superblockBid_mem _)
    · exact .ret h1

end Fs

end Ext4
