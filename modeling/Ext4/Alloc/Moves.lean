import Ext4.Alloc.Synced
import Mathlib.Data.Set.Basic

namespace Ext4

open Finset SuperBlock BlockGroup IdRange

variable {g : JournalGeometry}

namespace Fs

variable {start b startBit freedCount current n : Nat}

def freeTotal (fs : Fs) : Nat :=
  ∑ idx ∈ Finset.range fs.sb.nrBlockGroups, (fs.groups idx).metadata.blockBitmap.freeIds.card

structure Balances (fs fs' : Fs) : Prop where
  group : ∀ idx, (fs'.groups idx).metadata.desc.freeBlocksCount +
      (fs.groups idx).metadata.blockBitmap.freeIds.card =
    (fs.groups idx).metadata.desc.freeBlocksCount +
      (fs'.groups idx).metadata.blockBitmap.freeIds.card
  volume : fs'.sb.freeBlocksCount + fs.freeTotal = fs.sb.freeBlocksCount + fs'.freeTotal
  padding : ∀ idx i, (fs.groups idx).metadata.blockBitmap.len ≤ i →
    (fs'.groups idx).metadata.blockBitmap.isAllocated i =
      (fs.groups idx).metadata.blockBitmap.isAllocated i
  blockLen : ∀ idx, (fs'.groups idx).metadata.blockBitmap.len =
    (fs.groups idx).metadata.blockBitmap.len
  inodeBitmap : ∀ idx, (fs'.groups idx).metadata.inodeBitmap = (fs.groups idx).metadata.inodeBitmap
  freeInodes : ∀ idx, (fs'.groups idx).metadata.desc.freeInodesCount =
    (fs.groups idx).metadata.desc.freeInodesCount
  usedDirs : ∀ idx, (fs'.groups idx).metadata.desc.usedDirsCount =
    (fs.groups idx).metadata.desc.usedDirsCount
  inodes : fs'.sb.freeInodesCount = fs.sb.freeInodesCount

structure Moves (fs fs' : Fs) (used : Nat → Bool) (written freed : Set Nat) : Prop where
  layout : fs'.layout = fs.layout
  ready : fs'.Ready
  mode : fs'.handle.isSome = fs.handle.isSome
  aborted : fs'.aborted = fs.aborted
  device : ∀ b, (fs'.device b).isSome = (fs.device b).isSome
  used_eq : ∀ b, fs.layout.Contains b → fs'.blockUsed b = used b
  image : ∀ b, b ∉ fs.layout.systemBids → b ∉ written → b ∉ freed → fs'.image b = fs.image b
  credits : ∀ S n, fs.layout.systemBids ⊆ S → (∀ b ∈ written, b ∈ S) → (∀ b ∈ S, b ∉ freed) →
    fs.Covers S n → fs'.Covers S n
  balances : fs.Balances fs'
  synced : fs.handle.isSome = true → (∀ b ∈ fs.layout.systemBids, b ∉ written ∧ b ∉ freed) →
    fs.Synced → fs'.Synced

variable {fs fs' fs'' : Fs} {idx : Nat} {m : BlockGroupMetadata} {sb : SuperBlock}
  {image : Nat → Option Block} {T : Finset Nat} {used used' : Nat → Bool}
  {written written' freed freed' : Set Nat}

theorem Balances.refl (fs : Fs) : fs.Balances fs :=
  ⟨fun _ => rfl, rfl, fun _ _ _ => rfl, fun _ => rfl, fun _ => rfl, fun _ => rfl, fun _ => rfl, rfl⟩

theorem Balances.of_same (hsb : fs'.sb = fs.sb) (hgroups : fs'.groups = fs.groups) :
    fs.Balances fs' := by
  have hsame := Balances.refl fs
  have htotal : fs'.freeTotal = fs.freeTotal := by
    simp only [freeTotal, hsb, hgroups]
  refine ⟨?_, by rw [htotal, hsb], ?_, ?_, ?_, ?_, ?_, by rw [hsb]⟩
  · rw [hgroups]
    exact hsame.group
  · rw [hgroups]
    exact hsame.padding
  · rw [hgroups]
    exact hsame.blockLen
  · rw [hgroups]
    exact hsame.inodeBitmap
  · rw [hgroups]
    exact hsame.freeInodes
  · rw [hgroups]
    exact hsame.usedDirs

theorem Balances.trans (h1 : fs.Balances fs') (h2 : fs'.Balances fs'') : fs.Balances fs'' where
  group idx := by
    have hleft := h1.group idx
    have hright := h2.group idx
    omega
  volume := by
    have hleft := h1.volume
    have hright := h2.volume
    omega
  padding idx i hi := (h2.padding idx i (h1.blockLen idx ▸ hi)).trans (h1.padding idx i hi)
  blockLen idx := (h2.blockLen idx).trans (h1.blockLen idx)
  inodeBitmap idx := (h2.inodeBitmap idx).trans (h1.inodeBitmap idx)
  freeInodes idx := (h2.freeInodes idx).trans (h1.freeInodes idx)
  usedDirs idx := (h2.usedDirs idx).trans (h1.usedDirs idx)
  inodes := h2.inodes.trans h1.inodes

theorem Evolves.blockUsed (h : fs.Evolves fs' image T) : fs'.blockUsed = fs.blockUsed := by
  funext b
  simp only [Fs.blockUsed, groupOf, h.sb, h.groups]

theorem Evolves.moves (h : fs.Evolves fs' image T) (himage : ∀ b, b ∉ written → image b = fs.image b)
    (hT : ∀ b ∈ T, b ∈ fs.layout.systemBids ∨ b ∈ written) :
    fs.Moves fs' fs.blockUsed written ∅ where
  layout := h.layout
  ready := h.ready
  mode := h.mode
  aborted := h.aborted
  device b := by rw [h.device]
  used_eq b _ := by rw [h.blockUsed]
  image b _ hb _ := (h.image b).trans (himage b hb)
  credits S n hsys hw _ hc := h.credits S n (fun b hb => (hT b hb).elim (fun hb => hsys hb) (hw b)) hc
  balances := .of_same h.sb h.groups
  synced _ hdisj hs := by
    unfold Synced at hs ⊢
    rw [h.sb, h.groups]
    exact hs.congr fun b hb => (h.image b).trans (himage b (hdisj b hb).1)

def run (start count : Nat) : Set Nat := {b | start ≤ b ∧ b < start + count}

theorem Forgets.moves {count : Nat} (h : fs.Forgets fs' start count) :
    fs.Moves fs' fs.blockUsed ∅ (run start count) where
  layout := by simp only [Fs.layout, h.sb, h.groups]
  ready := h.ready
  mode := h.mode
  aborted := h.aborted
  device b := by rw [h.device]
  used_eq b _ := by simp only [Fs.blockUsed, groupOf, h.sb, h.groups]
  image b _ _ hb := h.image b fun hin => hb (List.mem_range'_1.mp hin)
  credits S n _ _ hf hc := h.credits S n (fun b hb hin => hf b hb (List.mem_range'_1.mp hin)) hc
  balances := .of_same h.sb h.groups
  synced _ hdisj hs := by
    unfold Synced at hs ⊢
    rw [h.sb, h.groups]
    exact hs.congr fun b hb =>
      h.image b fun hin => (hdisj b hb).2 (List.mem_range'_1.mp hin)

theorem Moves.trans (h1 : fs.Moves fs' used written freed) (h2 : fs'.Moves fs'' used' written' freed') :
    fs.Moves fs'' used' (written ∪ written') (freed ∪ freed') where
  layout := h2.layout.trans h1.layout
  ready := h2.ready
  mode := h2.mode.trans h1.mode
  aborted := h2.aborted.trans h1.aborted
  device b := (h2.device b).trans (h1.device b)
  used_eq b hb := h2.used_eq b (h1.layout ▸ hb)
  image b hb hw hf := by
    rw [h2.image b (h1.layout ▸ hb) (fun h => hw (.inr h)) fun h => hf (.inr h),
      h1.image b hb (fun h => hw (.inl h)) fun h => hf (.inl h)]
  credits S n hsys hw hf hc :=
    h2.credits S n (h1.layout ▸ hsys) (fun b hb => hw b (.inr hb)) (fun b hb h => hf b hb (.inr h))
      (h1.credits S n hsys (fun b hb => hw b (.inl hb)) (fun b hb h => hf b hb (.inl h)) hc)
  balances := h1.balances.trans h2.balances
  synced hlive hdisj hs :=
    h2.synced (h1.mode ▸ hlive)
      (fun b hb => ⟨fun h => (hdisj b (h1.layout ▸ hb)).1 (.inr h), fun h => (hdisj b (h1.layout ▸ hb)).2 (.inr h)⟩)
      (h1.synced hlive (fun b hb => ⟨fun h => (hdisj b hb).1 (.inl h), fun h => (hdisj b hb).2 (.inl h)⟩) hs)

theorem Moves.weaken (h : fs.Moves fs' used written freed)
    (hused : ∀ b, fs.layout.Contains b → used b = used' b) (hwritten : written ⊆ written')
    (hfreed : freed ⊆ freed') : fs.Moves fs' used' written' freed' :=
  { h with
    used_eq := fun b hb => (h.used_eq b hb).trans (hused b hb)
    image := fun b hb hw hf => h.image b hb (fun h => hw (hwritten h)) fun h => hf (hfreed h)
    credits := fun S n hsys hw hf => h.credits S n hsys (fun b hb => hw b (hwritten hb))
      fun b hb h => hf b hb (hfreed h)
    synced := fun hlive hdisj => h.synced hlive fun b hb =>
      ⟨fun h => (hdisj b hb).1 (hwritten h), fun h => (hdisj b hb).2 (hfreed h)⟩ }

theorem Moves.refl (hr : fs.Ready) : fs.Moves fs fs.blockUsed ∅ ∅ :=
  (Evolves.refl hr).moves (fun _ _ => rfl) fun b hb => by simp at hb

theorem Moves.carries (h : fs.Moves fs' used written freed) : fs.Carries fs' :=
  ⟨h.ready, h.mode, fun ha => by rw [h.aborted]; exact ha⟩

theorem sum_setMetadata (f : BlockGroupMetadata → Nat) (hidx : idx < fs.sb.nrBlockGroups) :
    (∑ k ∈ range fs.sb.nrBlockGroups, f ((fs.setMetadata idx m).groups k).metadata) +
        f (fs.groups idx).metadata =
      (∑ k ∈ range fs.sb.nrBlockGroups, f (fs.groups k).metadata) + f m := by
  have hmem := mem_range.mpr hidx
  have hrest : ∑ k ∈ (range fs.sb.nrBlockGroups).erase idx,
        f ((fs.setMetadata idx m).groups k).metadata =
      ∑ k ∈ (range fs.sb.nrBlockGroups).erase idx, f (fs.groups k).metadata :=
    sum_congr rfl fun k hk => by simp [setMetadata, ne_of_mem_erase hk]
  have hnew : ((fs.setMetadata idx m).groups idx).metadata = m := by simp [setMetadata]
  have hleft := sum_erase_add _ (fun k => f ((fs.setMetadata idx m).groups k).metadata) hmem
  have hright := sum_erase_add _ (fun k => f (fs.groups k).metadata) hmem
  simp only [hnew] at hleft
  omega

theorem freeTotal_setMetadata (hidx : idx < fs.sb.nrBlockGroups) :
    (fs.setMetadata idx m).freeTotal + (fs.groups idx).metadata.blockBitmap.freeIds.card =
      fs.freeTotal + m.blockBitmap.freeIds.card := by
  have hsum := sum_setMetadata (m := m) (fun m => m.blockBitmap.freeIds.card) hidx
  unfold freeTotal
  exact hsum

structure Rewrites (fs : Fs) (idx : Nat) (m : BlockGroupMetadata) (sb : SuperBlock) : Prop where
  idx_lt : idx < fs.sb.nrBlockGroups
  layout : ({ fs.groups idx with metadata := m } : BlockGroup).layout = (fs.groups idx).layout
  padding : ∀ i, (fs.groups idx).metadata.blockBitmap.len ≤ i →
    m.blockBitmap.isAllocated i = (fs.groups idx).metadata.blockBitmap.isAllocated i
  inodeBitmap : m.inodeBitmap = (fs.groups idx).metadata.inodeBitmap
  freeInodes : m.desc.freeInodesCount = (fs.groups idx).metadata.desc.freeInodesCount
  usedDirs : m.desc.usedDirsCount = (fs.groups idx).metadata.desc.usedDirsCount
  frame : sb.frame = fs.sb.frame
  inodes : sb.freeInodesCount = fs.sb.freeInodesCount
  group_books : m.desc.freeBlocksCount + (fs.groups idx).metadata.blockBitmap.freeIds.card =
    (fs.groups idx).metadata.desc.freeBlocksCount + m.blockBitmap.freeIds.card
  sb_books : sb.freeBlocksCount + (fs.groups idx).metadata.blockBitmap.freeIds.card =
    fs.sb.freeBlocksCount + m.blockBitmap.freeIds.card

variable (fs idx m sb) in
def rewritten : Fs := (fs.setMetadata idx m).setSb sb

section

variable (hr : fs.Rewrites idx m sb)

include hr

theorem Rewrites.layout_eq : (fs.rewritten idx m sb).layout = fs.layout := by
  have hgroups := congrArg Layout.group (layout_setMetadata hr.layout)
  exact congrArg₂ Layout.mk hr.frame hgroups

theorem Rewrites.balances : fs.Balances (fs.rewritten idx m sb) := by
  have hself : ((fs.rewritten idx m sb).groups idx).metadata = m := by
    simp [rewritten, setMetadata, setSb]
  have hother : ∀ k, k ≠ idx → (fs.rewritten idx m sb).groups k = fs.groups k := fun k hk => by
    simp [rewritten, setMetadata, setSb, hk]
  have hlen : m.blockBitmap.len = (fs.groups idx).metadata.blockBitmap.len :=
    congrArg GroupLayout.blockBits hr.layout
  refine ⟨fun k => ?_, ?_, fun k i hi => ?_, fun k => ?_, fun k => ?_, fun k => ?_, fun k => ?_, hr.inodes⟩
  · rcases eq_or_ne k idx with rfl | hk
    · rw [hself]
      exact hr.group_books
    · rw [hother k hk]
  · have htotal : (fs.rewritten idx m sb).freeTotal = (fs.setMetadata idx m).freeTotal := by
      have hnr : sb.nrBlockGroups = fs.sb.nrBlockGroups := by
        simpa [SuperBlock.frame] using congrArg SuperBlock.nrBlockGroups hr.frame
      simp only [freeTotal, rewritten, setSb, hnr]
      rfl
    have hsum := freeTotal_setMetadata (m := m) hr.idx_lt
    have hbooks := hr.sb_books
    rw [htotal]
    change sb.freeBlocksCount + _ = _
    omega
  · rcases eq_or_ne k idx with rfl | hk
    · rw [hself]
      exact hr.padding i hi
    · rw [hother k hk]
  · rcases eq_or_ne k idx with rfl | hk
    · rw [hself]
      exact hlen
    · rw [hother k hk]
  · rcases eq_or_ne k idx with rfl | hk
    · rw [hself]
      exact hr.inodeBitmap
    · rw [hother k hk]
  · rcases eq_or_ne k idx with rfl | hk
    · rw [hself]
      exact hr.freeInodes
    · rw [hother k hk]
  · rcases eq_or_ne k idx with rfl | hk
    · rw [hself]
      exact hr.usedDirs
    · rw [hother k hk]

theorem Rewrites.moves (hev : (fs.rewritten idx m sb).Evolves fs' image fs.layout.systemBids)
    (himage : ∀ b, b ∉ fs.layout.systemBids → image b = fs.image b)
    (hused : ∀ b, fs.layout.Contains b → (fs.rewritten idx m sb).blockUsed b = used b)
    (hsync : fs.handle.isSome = true → fs.Synced → Recorded sb (fs.setMetadata idx m).groups image) :
    fs.Moves fs' used ∅ ∅ where
  layout := hev.layout.trans hr.layout_eq
  ready := hev.ready
  mode := hev.mode
  aborted := hev.aborted
  device b := by rw [hev.device]; rfl
  used_eq b hb := by rw [hev.blockUsed]; exact hused b hb
  image b hb _ _ := (hev.image b).trans (himage b hb)
  credits S n hsys _ _ hc := hev.credits S n hsys hc
  balances := hr.balances.trans (.of_same hev.sb hev.groups)
  synced hlive _ hs := by
    have hrec := hsync hlive hs
    unfold Synced
    rw [hev.sb, hev.groups, show fs'.image = image from funext hev.image]
    exact hrec

theorem blockUsed_rewritten (b : Nat) :
    (fs.rewritten idx m sb).blockUsed b = if fs.groupOf b = idx then
      m.blockBitmap.isAllocated (b - (fs.groups idx).firstBlock) else fs.blockUsed b := by
  have hframe := hr.frame
  have hfirst : sb.firstDataBlock = fs.sb.firstDataBlock := by
    simpa [SuperBlock.frame] using congrArg firstDataBlock hframe
  have hper : sb.blocksPerGroup = fs.sb.blocksPerGroup := by
    simpa [SuperBlock.frame] using congrArg blocksPerGroup hframe
  have hgroup : (fs.rewritten idx m sb).groupOf b = fs.groupOf b := by
    simp only [groupOf, rewritten, setSb, hfirst, hper]
  simp only [Fs.blockUsed, hgroup]
  split_ifs with hidx
  · simp [rewritten, setSb, setMetadata, hidx]
  · simp [rewritten, setSb, setMetadata, hidx]

end

structure Fresh (fs : Fs) (count : Nat) (r : IdRange) : Prop where
  pos : r.start < r.stop
  len_le : r.len ≤ count
  contains : ∀ b, r.contains b = true → fs.layout.Contains b
  clear : ∀ b, r.contains b = true → fs.blockUsed b = false

variable {count : Nat} {pinnedFrees : List (Nat × Nat)} {r : IdRange}

theorem Allotted.rewrites (ha : fs.Allotted fs' count pinnedFrees r idx m sb) :
    fs.Rewrites idx m sb := by
  obtain ⟨hidx, hc, hdec, -⟩ := ha
  have hlen := hc.len_sb
  have hbooks := hc.books
  have hfree := hc.len_free
  have hdesc := hc.desc
  rw [BlockGroupDesc.clearBlockUninit_eq] at hdesc
  obtain rfl : { fs.sb with freeBlocksCount := fs.sb.freeBlocksCount - r.len } = sb := by
    simpa [decFreeBlocks, hlen] using hdec
  refine ⟨hidx, ?_, fun i hi => ?_, hc.inodes, ?_, ?_, rfl, rfl, ?_, ?_⟩
  · simp only [BlockGroup.layout, hdesc, hc.len, hc.inodes]
  · have hle := hc.le
    rw [hc.bits, if_neg fun h => by
      have hin := contains_iff.mp h
      omega]
  · rw [hdesc]
  · rw [hdesc]
  · rw [hdesc]
    simp only
    omega
  · simp only
    omega

section

variable (hw : fs.layout.Wf) (ha : fs.Allotted fs' count pinnedFrees r idx m sb)

include hw ha

theorem Allotted.located (hb : r.contains b = true) : fs.layout.Contains b ∧ fs.groupOf b = idx := by
  have hin := contains_iff.mp hb
  have hfirst := ha.claimed.first_le
  have hle := ha.claimed.le
  have hbits : (fs.groups idx).metadata.blockBitmap.len =
      (fs.groups idx).lastBlock - (fs.groups idx).firstBlock + 1 := hw.bits idx ha.idx_lt
  have hnonempty : (fs.groups idx).firstBlock ≤ (fs.groups idx).lastBlock :=
    hw.first_le idx ha.idx_lt
  have hlo : (fs.layout.group idx).firstBlock ≤ b := hfirst.trans hin.1
  have hhi : b ≤ (fs.layout.group idx).lastBlock := by
    change b ≤ (fs.groups idx).lastBlock
    omega
  exact hw.groupOf_eq ha.idx_lt hlo hhi

theorem Allotted.fresh :
    fs.Fresh count r := by
  refine ⟨ha.claimed.pos, ha.claimed.len_le, fun b hb => (ha.located hw hb).1, fun b hb => ?_⟩
  unfold Fs.blockUsed
  rw [(ha.located hw hb).2]
  exact ha.claimed.clear b hb

end

section

variable (hr : fs.Rewrites idx m sb)
include hr

theorem Rewrites.image_frame {live : Bool} (hb : b ∉ fs.layout.systemBids) :
    (fs.groups idx).publishImage (fs.groups idx).metadata.desc.blockBitmapBid m.blockBitmap m live
      fs.image b = fs.image b := by
  have hmeta : ∀ x ∈ (fs.groups idx).metaBids, b ≠ x := fun x hx heq =>
    hb (heq ▸ metaBids_subset hr.idx_lt hx)
  have hdesc := hmeta _ (descBlockBid_mem (fs.groups idx))
  have hbitmap := hmeta _ (blockBitmapBid_subset (fs.groups idx) (mem_singleton_self _))
  rw [publishImage, overlay, if_neg fun h => hdesc h.1, overlay, if_neg fun h => hbitmap h.1]

theorem Rewrites.recorded (hw : fs.layout.Wf) (hs : Recorded fs.sb fs.groups image) :
    Recorded fs.sb (fs.setMetadata idx m).groups
      ((fs.groups idx).publishImage (fs.groups idx).metadata.desc.blockBitmapBid m.blockBitmap m
        true image) :=
  hs.publish hw hr.idx_lt ⟨hr.layout, .inl ⟨rfl, rfl, hr.inodeBitmap⟩⟩

theorem Rewrites.moves_counted (hw : fs.layout.Wf)
    (hev : (fs.rewritten idx m sb).Evolves fs' (overlay fs.handle.isSome superblockBid (sb.patchInto
      sb.lastOrphan) ((fs.groups idx).publishImage (fs.groups idx).metadata.desc.blockBitmapBid m.blockBitmap
      m fs.handle.isSome fs.image)) fs.layout.systemBids)
    (hused : ∀ b, fs.layout.Contains b → (fs.rewritten idx m sb).blockUsed b = used b) :
    fs.Moves fs' used ∅ ∅ := by
  refine hr.moves hev (fun b hb => ?_) hused fun hlive hs => ?_
  · have hne : b ≠ superblockBid := fun heq => hb (heq ▸ Layout.superblockBid_mem _)
    rw [overlay, if_neg fun h => hne h.1, hr.image_frame hb]
  · rw [hlive]
    have hlayout : (fs.setMetadata idx m).layout = fs.layout := layout_setMetadata hr.layout
    have hw' : (fs.setMetadata idx m).layout.Wf := hlayout ▸ hw
    have hrec : Recorded (fs.setMetadata idx m).sb (fs.setMetadata idx m).groups _ :=
      hr.recorded hw hs
    exact hrec.setSb hw' hr.frame

end

theorem Allotted.moves (hw : fs.layout.Wf) (ha : fs.Allotted fs' count pinnedFrees r idx m sb) :
    fs.Moves fs' (fun b => r.contains b || fs.blockUsed b) ∅ ∅ := by
  have hr := ha.rewrites
  refine hr.moves_counted hw ha.evolves fun b hb => ?_
  rw [blockUsed_rewritten hr]
  split_ifs with hidx
  · have hfirst : (fs.groups idx).firstBlock ≤ b := by
      have hloc := (hw.located hb).2.1
      rw [show fs.layout.groupOf b = idx from hidx] at hloc
      exact hloc
    rw [ha.claimed.bits, Nat.add_sub_cancel' hfirst]
    cases r.contains b with
    | true => rfl
    | false =>
      unfold Fs.blockUsed
      rw [hidx]
      rfl
  · have hout : r.contains b = false := by
      cases hin : r.contains b with
      | false => rfl
      | true => exact absurd (ha.located hw hin).2 hidx
    rw [hout, Bool.false_or]

theorem groupRing_lt {first nr : Nat} : ∀ idx ∈ groupRing first nr, idx < nr := by
  intro idx hidx
  obtain ⟨offset, hoffset, rfl⟩ := List.mem_map.mp hidx
  exact Nat.mod_lt _ (pos_of_ne_zero fun h => by simp [h] at hoffset)

theorem allocBlocks_ends (hr : fs.Ready) (hw : fs.layout.Wf) (g : JournalGeometry) (count goal : Nat) :
    (allocBlocks g count goal).Ends fs
      (fun r fs' => fs.Fresh count r ∧ fs.Moves fs' (fun b => r.contains b || fs.blockUsed b) ∅ ∅)
      fun _ fs' => fs.Spared fs' := by
  have hsame : fs.Evolves fs fs.image fs.layout.systemBids := (Evolves.refl hr).weaken (by simp)
  unfold allocBlocks
  split
  · exact .fail (.inl hsame)
  · refine .bind_get ?_
    split
    · exact .fail (.inl hsame)
    · refine (searchGroups_ends hsame count _ groupRing_lt false).mono (fun r fs1 h1 => ?_)
        fun _ _ h => h
      obtain ⟨idx, m, sb, ha⟩ := h1
      exact ⟨ha.fresh hw, ha.moves hw⟩

theorem Released.rewrites (hidx : idx < fs.sb.nrBlockGroups)
    (hrel : (fs.groups idx).Released startBit count freedCount m)
    (hle : startBit + count ≤ (fs.groups idx).metadata.blockBitmap.len) (hframe : sb.frame = fs.sb.frame)
    (hinodes : sb.freeInodesCount = fs.sb.freeInodesCount)
    (hsb : sb.freeBlocksCount = fs.sb.freeBlocksCount + freedCount) : fs.Rewrites idx m sb := by
  have hbooks := hrel.books
  refine ⟨hidx, ?_, fun i hi => ?_, hrel.inodes, ?_, ?_, hframe, hinodes, ?_, ?_⟩
  · simp only [BlockGroup.layout, hrel.desc, hrel.len, hrel.inodes]
  · rw [hrel.bits, if_neg (by omega)]
  · rw [hrel.desc]
  · rw [hrel.desc]
  · rw [hrel.desc]
    simp only
    omega
  · omega

def dropped (used : Nat → Bool) (start count : Nat) (b : Nat) : Bool :=
  used b && !(⟨start, start + count⟩ : IdRange).contains b

theorem Released.blockUsed (hw : fs.layout.Wf) (hr : fs.Rewrites idx m sb)
    (hrel : (fs.groups idx).Released startBit count freedCount m)
    (hstart : current = (fs.groups idx).firstBlock + startBit)
    (hgroup : ∀ b, current ≤ b → b < current + count → fs.groupOf b = idx) (hb : fs.layout.Contains b) :
    (fs.rewritten idx m sb).blockUsed b = dropped fs.blockUsed current count b := by
  rw [blockUsed_rewritten hr, dropped]
  split_ifs with hidx
  · have hfirst : (fs.groups idx).firstBlock ≤ b := by
      have hloc := (hw.located hb).2.1
      rw [show fs.layout.groupOf b = idx from hidx] at hloc
      exact hloc
    rw [hrel.bits]
    split_ifs with hin
    · have hmem : (⟨current, current + count⟩ : IdRange).contains b = true :=
        contains_iff.mpr (by simp only; omega)
      rw [hmem, Bool.not_true, Bool.and_false]
    · have hmem : (⟨current, current + count⟩ : IdRange).contains b = false :=
        Bool.eq_false_iff.mpr fun h => hin (by
          have hrange := contains_iff.mp h
          simp only at hrange
          omega)
      rw [hmem, Bool.not_false, Bool.and_true]
      unfold Fs.blockUsed
      rw [hidx]
  · have hmem : (⟨current, current + count⟩ : IdRange).contains b = false :=
      Bool.eq_false_iff.mpr fun h => hidx (by
        have hrange := contains_iff.mp h
        exact hgroup b hrange.1 hrange.2)
    rw [hmem, Bool.not_false, Bool.and_true]

theorem incFreeBlocks_ok (h : fs.sb.incFreeBlocks n = .ok sb) :
    sb = { fs.sb with freeBlocksCount := fs.sb.freeBlocksCount + n } := by
  unfold incFreeBlocks at h
  split_ifs at h
  exact (Except.ok.inj h).symm

inductive Returned (fs fs' : Fs) (idx startBit count : Nat) (m : BlockGroupMetadata) : Prop
  | counted {freedCount : Nat} {sb : SuperBlock}
      (released : (fs.groups idx).Released startBit count freedCount m)
      (inc : sb = { fs.sb with freeBlocksCount := fs.sb.freeBlocksCount + freedCount })
      (evolves : (fs.rewritten idx m sb).Evolves fs' (overlay fs.handle.isSome SuperBlock.superblockBid
        (sb.patchInto sb.lastOrphan) ((fs.groups idx).publishImage
          (fs.groups idx).metadata.desc.blockBitmapBid m.blockBitmap m fs.handle.isSome fs.image))
        fs.layout.systemBids)
  | double (released : (fs.groups idx).Released startBit count 0 m)
      (evolves : (fs.rewritten idx m fs.sb).Evolves fs' ((fs.groups idx).publishImage
        (fs.groups idx).metadata.desc.blockBitmapBid m.blockBitmap m fs.handle.isSome fs.image)
        fs.layout.systemBids)

theorem freeRun_returns (hr : fs.Ready) (hidx : idx < fs.sb.nrBlockGroups)
    (hle : startBit + count ≤ (fs.groups idx).metadata.blockBitmap.len) :
    (freeRun g idx startBit current count).Ends fs
      (fun _ fs' => ∃ m, fs.Returned fs' idx startBit count m) fun _ fs' => fs.Carries fs' := by
  refine (freeBlocks_ends hr g idx startBit count).bind fun freedCount fs1 h1 => ?_
  obtain ⟨m, hrel, h1⟩ := h1
  replace hrel := hrel hle
  refine ((pinFreedRun_ends h1.ready current count).mono (fun _ fs2 h2 => h1.rest h2)
    fun _ _ hf => hf.elim).bind fun _ fs2 h2 => ?_
  have hmeta := metaBids_subset hidx
  split
  · refine (updateSb_ends h2.ready _).mono (fun _ fs3 h3 => ?_) fun _ fs3 h3 =>
      h2.setCarries.trans h3.1
    obtain ⟨sb, hinc, h3⟩ := h3
    rw [h2.sb] at hinc
    refine ⟨m, .counted hrel (incFreeBlocks_ok hinc) (((h2.setSb sb).patch h3).weaken (union_subset hmeta ?_))⟩
    exact singleton_subset_iff.mpr (Layout.superblockBid_mem _)
  · next hzero =>
    obtain rfl : freedCount = 0 := by omega
    exact .ret ⟨m, .double hrel (h2.weaken hmeta)⟩

theorem freeRun_ends (hr : fs.Ready) (hw : fs.layout.Wf) (hidx : idx < fs.sb.nrBlockGroups)
    (hstart : current = (fs.groups idx).firstBlock + startBit)
    (hle : current + count ≤ (fs.groups idx).lastBlock + 1) :
    (freeRun g idx startBit current count).Ends fs
      (fun _ fs' => fs.Moves fs' (dropped fs.blockUsed current count) ∅ ∅)
      fun _ fs' => fs.Carries fs' := by
  have hbits : (fs.groups idx).metadata.blockBitmap.len =
      (fs.groups idx).lastBlock - (fs.groups idx).firstBlock + 1 := hw.bits idx hidx
  have hnonempty : (fs.groups idx).firstBlock ≤ (fs.groups idx).lastBlock := hw.first_le idx hidx
  have hgroup : ∀ b, current ≤ b → b < current + count → fs.groupOf b = idx := fun b hlo hhi =>
    (hw.groupOf_eq hidx (show (fs.groups idx).firstBlock ≤ b by omega)
      (show b ≤ (fs.groups idx).lastBlock by omega)).2
  have hfit : startBit + count ≤ (fs.groups idx).metadata.blockBitmap.len := by omega
  refine (freeRun_returns hr hidx hfit).mono (fun _ fs' h => ?_) fun _ _ h => h
  obtain ⟨m, hreturned⟩ := h
  cases hreturned with
  | @counted freedCount sb hrel hsb hev =>
    have hrew : fs.Rewrites idx m sb := Released.rewrites hidx hrel hfit (by rw [hsb]; rfl)
      (by rw [hsb]) (by rw [hsb])
    exact hrew.moves_counted hw hev fun b hb => Released.blockUsed hw hrew hrel hstart hgroup hb
  | double hrel hev =>
    have hrew : fs.Rewrites idx m fs.sb := Released.rewrites hidx hrel hfit rfl rfl rfl
    refine hrew.moves hev (fun b hb => hrew.image_frame hb)
      (fun b hb => Released.blockUsed hw hrew hrel hstart hgroup hb) fun hlive hs => ?_
    rw [hlive]
    exact hrew.recorded hw hs

theorem freeRun_carries (hr : fs.Ready) (idx startBit current count : Nat) :
    (freeRun g idx startBit current count).Leaves fs fs.Carries := by
  refine (freeBlocks_ends hr g idx startBit count).bind fun freedCount fs1 h1 => ?_
  obtain ⟨m, -, h1⟩ := h1
  refine ((pinFreedRun_ends h1.ready current count).mono (fun _ fs2 h2 => h1.rest h2)
    fun _ _ hf => hf.elim).bind fun _ fs2 h2 => ?_
  split
  · refine (updateSb_ends h2.ready _).mono (fun _ fs3 h3 => ?_) fun _ fs3 h3 =>
      h2.setCarries.trans h3.1
    obtain ⟨sb, -, h3⟩ := h3
    exact h2.setCarries.trans ⟨h3.ready, h3.mode, fun ha => by rw [h3.aborted]; exact ha⟩
  · exact .ret h2.setCarries

def Spoiled (fs fs' : Fs) : Prop :=
  fs.Carries fs' ∧ (fs.handle.isSome = true → fs'.aborted = true)

theorem Moves.spoiled (h1 : fs.Moves fs' used written freed) (h2 : fs'.Spoiled fs'') :
    fs.Spoiled fs'' :=
  ⟨h1.carries.trans h2.1, fun hlive => h2.2 (h1.mode.trans hlive)⟩

theorem dropped_dropped {k : Nat} (h : used' b = dropped used start n b) :
    dropped used' (start + n) k b = dropped used start (n + k) b := by
  unfold dropped at h ⊢
  rw [h, Bool.and_assoc]
  refine congrArg (used b && ·) ?_
  rw [Bool.eq_iff_iff]
  simp only [contains, Bool.and_eq_true, Bool.not_eq_true', Bool.and_eq_false_iff, decide_eq_false_iff_not]
  omega

theorem dropped_none (used : Nat → Bool) (start b : Nat) : dropped used start 0 b = used b := by
  have hno : (⟨start, start + 0⟩ : IdRange).contains b = false := Bool.eq_false_iff.mpr fun h => by
    have hin := contains_iff.mp h
    simp only at hin
    omega
  rw [dropped, hno, Bool.not_false, Bool.and_true]

theorem Moves.idle (hr : fs.Ready) (current : Nat) :
    fs.Moves fs (dropped fs.blockUsed current 0) ∅ (run current 0) :=
  (Moves.refl hr).weaken (fun b _ => (dropped_none _ _ b).symm) subset_rfl
    (Set.empty_subset _)

theorem dischargeDuty_ends (hr : fs.Ready) (duty : Bool) (start count : Nat) :
    (dischargeDuty duty start count).Ends fs
      (fun _ fs' => fs.Moves fs' fs.blockUsed ∅ (run start count)) fun _ _ => False := by
  unfold dischargeDuty
  split_ifs
  · exact (discharge_ends hr start count).mono (fun _ _ h => h.moves) fun _ _ h => h
  · exact .ret ((Moves.refl hr).weaken (fun _ _ => rfl) subset_rfl (Set.empty_subset _))

theorem freeRuns_carries (hr : fs.Ready) (duty : Bool) (fuel current remaining : Nat) :
    (freeRuns g duty fuel current remaining).Leaves fs fs.Carries := by
  induction fuel generalizing fs current remaining with
  | zero => exact .ret ⟨hr, rfl, fun ha => ha⟩
  | succ fuel ih =>
    unfold freeRuns
    split
    · exact .ret ⟨hr, rfl, fun ha => ha⟩
    · refine .bind_get ?_
      dsimp only
      refine ((dischargeDuty_ends hr duty _ _).mono (fun _ _ h => h.carries) fun _ _ h => h.elim).bind
        fun _ fs1 h1 => ?_
      refine (Op.Ends.attempt (Q := fun _ fs2 => fs1.Carries fs2)
        (freeRun_carries h1.ready _ _ _ _)).bind fun res fs2 h2 => ?_
      cases res with
      | error e =>
        exact (abortJournalOnFsError_ends h2.ready).bindOr (fun _ _ h => h)
          fun _ fs3 h3 => .fail ((h1.trans h2).trans h3.1)
      | ok u =>
        exact (ih h2.ready _ _).both fun _ h => (h1.trans h2).trans h

structure Piece (fs : Fs) (idx startBit current count : Nat) : Prop where
  idx_lt : idx < fs.sb.nrBlockGroups
  start : current = (fs.groups idx).firstBlock + startBit
  stop_le : current + count ≤ (fs.groups idx).lastBlock + 1
  fits : startBit + count ≤ (fs.groups idx).metadata.blockBitmap.len

theorem Piece.congr (hp : fs.Piece idx startBit current n) (hl : fs'.layout = fs.layout) :
    fs'.Piece idx startBit current n := by
  have hgroup : (fs'.groups idx).layout = (fs.groups idx).layout := congrFun (congrArg Layout.group hl) idx
  have hfirst : (fs'.groups idx).firstBlock = (fs.groups idx).firstBlock := congrArg GroupLayout.firstBlock hgroup
  have hlast : (fs'.groups idx).lastBlock = (fs.groups idx).lastBlock := congrArg GroupLayout.lastBlock hgroup
  have hlen : (fs'.groups idx).metadata.blockBitmap.len = (fs.groups idx).metadata.blockBitmap.len :=
    congrArg GroupLayout.blockBits hgroup
  exact ⟨lt_of_lt_of_eq hp.idx_lt (congrArg (fun l => l.sb.nrBlockGroups) hl).symm, hfirst ▸ hp.start,
    hlast ▸ hp.stop_le, hlen ▸ hp.fits⟩

theorem freeRuns_rule {base : Fs} {I : Fs → Nat → Prop} {E : Fault → Fs → Prop} {duty : Bool} {total : Nat}
    (hw : base.layout.Wf) (hlayout : ∀ fs n, I fs n → fs.layout = base.layout)
    (hpiece : ∀ fs idx startBit n count, I fs n → n + count ≤ total → fs.Piece idx startBit (start + n) count →
      (dischargeDuty duty (start + n) count).Ends fs (fun _ fs1 =>
        (freeRun g idx startBit (start + n) count).Ends fs1 (fun _ fs2 => I fs2 (n + count))
          fun e fs2 => abortJournalOnFsError.Ends fs2 (fun _ fs3 => E e fs3) E) E)
    (hrun : ∀ b ∈ run start total, base.layout.Contains b) {fuel remaining : Nat} (hfuel : remaining ≤ fuel)
    (htotal : n + remaining = total) (h : I fs n) :
    (freeRuns g duty fuel (start + n) remaining).Ends fs (fun _ fs' => I fs' total) E := by
  induction fuel generalizing fs n remaining with
  | zero =>
    obtain rfl : n = total := by omega
    exact .ret h
  | succ fuel ih =>
    unfold freeRuns
    split
    next h0 =>
      obtain rfl : n = total := by omega
      exact .ret h
    next hpos =>
      refine .bind_get ?_
      dsimp only
      generalize hidx : fs.groupOf (start + n) = idx
      generalize hcount : min remaining ((fs.groups idx).groupSize - (start + n - (fs.groups idx).firstBlock)) = count
      have hwf : fs.layout.Wf := hlayout fs n h ▸ hw
      obtain ⟨hlt, hlo, hhi⟩ := hwf.located (hlayout fs n h ▸ hrun (start + n) ⟨by omega, by omega⟩)
      rw [show fs.layout.groupOf (start + n) = idx from hidx] at hlt hlo hhi
      change (fs.groups idx).firstBlock ≤ start + n at hlo
      change start + n ≤ (fs.groups idx).lastBlock at hhi
      have hsize : (fs.groups idx).groupSize = (fs.groups idx).lastBlock - (fs.groups idx).firstBlock + 1 := rfl
      have hbits : (fs.groups idx).metadata.blockBitmap.len = (fs.groups idx).groupSize := hwf.bits idx hlt
      have hp : fs.Piece idx (start + n - (fs.groups idx).firstBlock) (start + n) count :=
        ⟨hlt, by omega, by omega, by omega⟩
      refine (hpiece fs idx _ n count h (by omega) hp).bind fun _ fs1 h1 => ?_
      refine (Op.Ends.attempt (Q := fun res fs2 => match res with
        | .ok _ => I fs2 (n + count)
        | .error e => abortJournalOnFsError.Ends fs2 (fun _ fs3 => E e fs3) E) h1).bind fun res fs2 h2 => ?_
      cases res with
      | error e => exact Op.Ends.bind h2 fun _ _ h3 => .fail h3
      | ok u =>
        rw [add_assoc]
        exact ih (by omega) (by omega) h2

theorem freeRuns_ends (hr : fs.Ready) (hw : fs.layout.Wf) (duty : Bool) {fuel total : Nat}
    (hfuel : total ≤ fuel) (hrun : ∀ b ∈ run start total, fs.layout.Contains b) :
    (freeRuns g duty fuel start total).Ends fs
      (fun _ fs' => fs.Moves fs' (dropped fs.blockUsed start total) ∅ (run start total))
      fun _ fs' => fs.Spoiled fs' := by
  refine freeRuns_rule (I := fun fs' n => fs.Moves fs' (dropped fs.blockUsed start n) ∅ (run start n))
    hw (fun _ _ h => h.layout) (fun fs0 idx startBit n count h0 _ hp => ?_) hrun hfuel (zero_add _) (.idle hr start)
  refine (dischargeDuty_ends h0.ready duty _ count).mono (fun _ fs1 h1 => ?_) fun _ _ h => h.elim
  have hp1 := hp.congr h1.layout
  have hw1 : fs1.layout.Wf := (h1.layout.trans h0.layout) ▸ hw
  refine (freeRun_ends h1.ready hw1 hp1.idx_lt hp1.start hp1.stop_le).mono (fun _ fs2 h2 => ?_) fun _ fs2 h2 => ?_
  · refine ((h0.trans h1).trans h2).weaken (fun b hb => ?_) (by simp) ?_
    · have hb0 : fs0.layout.Contains b := by rw [h0.layout]; exact hb
      rw [dropped_dropped]
      rw [h1.used_eq b hb0, h0.used_eq b hb]
    · rintro b ((hb | hb) | hb)
      · exact ⟨hb.1, by have := hb.2; omega⟩
      · exact ⟨by have := hb.1; omega, by have := hb.2; omega⟩
      · exact hb.elim
  · exact (abortJournalOnFsError_ends h2.ready).mono (fun _ fs3 h3 => h0.spoiled (h1.spoiled
      ⟨h2.trans h3.1, fun hlive => h3.2 (h2.mode.trans hlive)⟩)) fun _ _ h => h

theorem freeBlocks_ends (hr : fs.Ready) (hw : fs.layout.Wf) (g : JournalGeometry) (auth : BlockFreeAuth)
    (hrun : ∀ b ∈ run auth.start auth.count, fs.layout.Contains b) :
    (freeBlocks g auth).Ends fs
      (fun _ fs' => fs.Moves fs' (dropped fs.blockUsed auth.start auth.count) ∅ (run auth.start auth.count))
      fun _ fs' => fs.Spoiled fs' :=
  freeRuns_ends hr hw auth.duty le_rfl hrun

end Fs

end Ext4
