import Ext4.Extent.Mutate
import Ext4.Inode.Table

namespace Ext4

open Bytes SuperBlock List BlockGroup TreeFs

variable {count start : Nat}

namespace SuperBlock

def readHead (b : Block) : Nat := getLE b (superBlockOffset + 0xE8) 4

theorem readHead_patchInto (sb : SuperBlock) (lastOrphan : Option Nat) (buf : Block) :
    readHead (sb.patchInto lastOrphan buf) = lastOrphan.getD 0 % 256 ^ 4 := by
  unfold patchInto readHead superBlockOffset
  cases sb.is64bit <;> cases sb.hasMetadataCsum <;>
    simp (disch := omega) [getLE_putLE_disjoint, getLE_putLE_same]

end SuperBlock

namespace Fs

variable {T : Finset Nat} {startBit : Nat}

def headOrphan (fs : Fs) : Option Nat := (fs.image SuperBlock.superblockBid).map SuperBlock.readHead

def HeadKept (fs : Fs) : Prop := fs.headOrphan = some (fs.sb.lastOrphan.getD 0 % 256 ^ 4)

def Guarded (fs : Fs) (b : Nat) : Prop := b ∈ fs.layout.systemBids ∨ fs.layout.Tables b

structure Zoned (t : InodeTable) (fs : Fs) : Prop where
  live : fs.handle.isSome = true
  steady : fs.Steady
  tabled : fs.layout.Tabled t
  contains : ∀ b, fs.layout.Tables b → fs.layout.Contains b
  tables : ∀ b, fs.layout.Tables b → fs.blockUsed b = true

structure Aside (fs fs' : Fs) : Prop where
  layout : fs'.layout = fs.layout
  ready : fs'.Ready
  mode : fs'.handle.isSome = fs.handle.isSome
  tables : ∀ b, fs.layout.Tables b → fs'.image b = fs.image b
  head : fs.HeadKept → fs'.HeadKept
  used : ∀ b, fs.layout.Contains b → fs.Guarded b → fs.blockUsed b = true → fs'.blockUsed b = true

variable {t : InodeTable} {fs fs' fs'' base : Fs} {α β : Type}

theorem lastOrphan_congr (h : fs'.layout = fs.layout) : fs'.sb.lastOrphan = fs.sb.lastOrphan :=
  congrArg (fun l : Layout => l.sb.lastOrphan) h

theorem Guarded.congr {b : Nat} (h : fs'.layout = fs.layout) : fs'.Guarded b ↔ fs.Guarded b := by
  rw [Guarded, Guarded, h]

theorem Zoned.not_guarded (hz : fs.Zoned t) {b : Nat} (hb : fs.layout.Contains b)
    (hclear : fs.blockUsed b = false) : ¬fs.Guarded b := by
  rintro (hs | ht)
  · exact hz.steady.not_system hb hclear hs
  · rw [hz.tables b ht] at hclear
    cases hclear

theorem Aside.refl (hr : fs.Ready) : fs.Aside fs := ⟨rfl, hr, rfl, fun _ _ => rfl, id, fun _ _ _ h => h⟩

theorem Aside.trans (h1 : fs.Aside fs') (h2 : fs'.Aside fs'') : fs.Aside fs'' where
  layout := h2.layout.trans h1.layout
  ready := h2.ready
  mode := h2.mode.trans h1.mode
  tables b hb := by rw [h2.tables b (h1.layout ▸ hb), h1.tables b hb]
  head h := h2.head (h1.head h)
  used b hc hg hu := h2.used b (h1.layout ▸ hc) ((Guarded.congr h1.layout).mpr hg) (h1.used b hc hg hu)

theorem Aside.zoned (h : fs.Aside fs') (hz : fs.Zoned t) : fs'.Zoned t where
  live := h.mode.trans hz.live
  steady :=
    { ready := h.ready
      wf := h.layout ▸ hz.steady.wf
      system b hb hc := by
        rw [h.layout] at hb hc
        exact h.used b hc (.inl hb) (hz.steady.system b hb hc)
      narrow := h.layout ▸ hz.steady.narrow }
  tabled := h.layout ▸ hz.tabled
  contains b hb := by
    rw [h.layout] at hb ⊢
    exact hz.contains b hb
  tables b hb := by
    rw [h.layout] at hb
    exact h.used b (hz.contains b hb) (.inr hb) (hz.tables b hb)

theorem Aside.of_same (hr : fs.Ready) (hh : fs'.handle = fs.handle) (hj : fs'.journal = fs.journal)
    (hd : fs'.device = fs.device) (hl : fs'.layout = fs.layout)
    (hu : ∀ b, fs.layout.Contains b → fs.Guarded b → fs.blockUsed b = true → fs'.blockUsed b = true) :
    fs.Aside fs' := by
  have himage : fs'.image = fs.image := by
    funext b
    simp only [image, hj, hd]
  refine ⟨hl, hr.of_same hh hj, by rw [hh], fun b _ => by rw [himage], fun h => ?_, hu⟩
  rw [HeadKept, headOrphan, himage, lastOrphan_congr hl]
  exact h

theorem Evolves.aside {image : Nat → Option Block} (h : fs.Evolves fs' image T)
    (htables : ∀ b, fs.layout.Tables b → image b = fs.image b)
    (hhead : (image superblockBid).map readHead = fs.headOrphan) :
    fs.Aside fs' where
  layout := h.layout
  ready := h.ready
  mode := h.mode
  tables b hb := by rw [h.image, htables b hb]
  head hk := by
    rw [HeadKept, headOrphan, h.image, hhead, h.sb]
    exact hk
  used b _ _ hu := by rw [h.blockUsed]; exact hu

theorem Evolves.aside_same (h : fs.Evolves fs' fs.image T) : fs.Aside fs' :=
  h.aside (fun _ _ => rfl) rfl

theorem Evolves.aside_patch {b : Nat} {f : Block → Block} (h : fs.Evolves fs' (fs.patched b f) T)
    (hs : b ≠ superblockBid) (ht : ¬fs.layout.Tables b) : fs.Aside fs' := by
  refine h.aside (fun x hx => ?_) ?_
  · rw [patched, overlay, if_neg]
    rintro ⟨rfl, -⟩
    exact ht hx
  · rw [patched, overlay, if_neg]
    · rfl
    · rintro ⟨hx, -⟩
      exact hs hx.symm

def Skirting {σ : Type} (view : σ → Fs) (t : InodeTable) (s : σ) (m : Op σ Fault α) : Prop :=
  (view s).Zoned t → m.Ends s (fun _ s' => (view s).Aside (view s')) fun _ s' => (view s).Aside (view s')

abbrev Skirts (t : InodeTable) (fs : Fs) (m : FsOp α) : Prop := Skirting (fun fs => fs) t fs m

namespace Skirting

variable {σ τ : Type} {view : σ → Fs} {s : σ} {m : Op σ Fault α} {f : α → Op σ Fault β}

theorem ret (a : α) : Skirting view t s (Op.ret a : Op σ Fault α) := fun hz =>
  .ret (.refl hz.steady.ready)

theorem fail (e : Fault) : Skirting view t s (Op.fail e : Op σ Fault α) := fun hz =>
  .fail (.refl hz.steady.ready)

theorem bind (hm : Skirting view t s m)
    (hf : ∀ a s', m s = (.ok a, s') → (view s).Aside (view s') → (view s').Zoned t →
      Skirting view t s' (f a)) : Skirting view t s (m >>= f) := by
  intro hz
  have hends := hm hz
  refine Op.Ends.bind (Q := fun a s' => m s = (.ok a, s') ∧ (view s).Aside (view s'))
    (.intro (fun a s' heq => ⟨heq, hends.of_ok heq⟩) fun e s' heq => hends.of_error heq)
    fun a s' h => ?_
  have hz' := h.2.zoned hz
  exact (hf a s' h.1 h.2 hz' hz').both fun _ h' => h.2.trans h'

theorem bind_get {f : σ → Op σ Fault β} (h : Skirting view t s (f s)) :
    Skirting view t s (Op.get >>= f) := h

theorem attempt (hm : Skirting view t s m) : Skirting view t s (Op.attempt m) := fun hz =>
  .attempt (hm hz)

theorem modify {g : σ → σ} (h : (view s).Zoned t → (view s).Aside (view (g s))) :
    Skirting view t s (Op.modify g : Op σ Fault Unit) := fun hz => .modify (h hz)

theorem of_ends {Q : α → σ → Prop} {E : Fault → σ → Prop} (h : (view s).Zoned t → m.Ends s Q E)
    (hQ : ∀ a s', Q a s' → (view s).Aside (view s')) (hE : ∀ e s', E e s' → (view s).Aside (view s')) :
    Skirting view t s m := fun hz => (h hz).mono hQ hE

theorem each {g : α → Op σ Fault Unit} {as : List α}
    (hg : ∀ a ∈ as, ∀ s', (view s).Aside (view s') → Skirting view t s' (g a)) :
    Skirting view t s (Op.each g as) := by
  induction as generalizing s with
  | nil => exact ret ()
  | cons a as ih =>
    refine fun hz => bind (hg a List.mem_cons_self s (.refl hz.steady.ready)) (fun _ s' _ h _ =>
      ih fun b hb s'' h' => hg b (mem_cons_of_mem a hb) s'' (h.trans h')) hz

theorem zoom {inner : τ → Fs} {get : σ → τ} {put : τ → σ → σ} {m : Op τ Fault α}
    (hget : inner (get s) = view s) (hput : ∀ x, view (put x s) = inner x)
    (h : Skirting inner t (get s) m) : Skirting view t s (Op.zoom get put m) := by
  intro hz
  rw [← hget] at hz
  refine .zoom ((h hz).mono (fun a x hx => ?_) fun e x hx => ?_)
  · rw [hput, ← hget]
    exact hx
  · rw [hput, ← hget]
    exact hx

end Skirting

section Captures

variable (g : JournalGeometry)

theorem journalCapture_skirts : fs.Skirts t (journalCapture g) := by
  intro hz
  refine (journalCapture_ends hz.steady.ready).mono (fun _ fs' h => ?_) fun _ _ h => h.1.aside_same
  have hlive := hz.live
  refine ⟨h.layout, h.ready, h.mode, fun b hb => ?_, fun hk => ?_, fun b _ _ hu => ?_⟩
  · rw [h.image, patched, overlay, if_neg]
    rintro ⟨rfl, -⟩
    exact hz.tabled.system _ hb (Layout.superblockBid_mem _)
  · obtain ⟨buf, hbuf, -⟩ := Option.map_eq_some_iff.mp hk
    rw [HeadKept, headOrphan, h.image, patched, overlay, if_pos ⟨rfl, hlive⟩, h.sb, hbuf]
    exact congrArg some (readHead_patchInto _ _ _)
  · rw [h.blockUsed]
    exact hu

theorem updateSb_skirts {update : SuperBlock → Except Fault SuperBlock}
    (hframe : ∀ sb, update fs.sb = .ok sb → sb.frame = fs.sb.frame) :
    fs.Skirts t (updateSb g update) := by
  refine .bind_get ?_
  cases hup : update fs.sb with
  | error e => exact .bind (.fail e) fun _ _ heq => nomatch heq
  | ok sb =>
    have hset : fs.Zoned t → fs.Aside (fs.setSb sb) := fun hz => by
      have hl : (fs.setSb sb).layout = fs.layout :=
        congrArg (fun frame => Layout.mk frame fun idx => (fs.groups idx).layout) (hframe sb hup)
      refine .of_same hz.steady.ready rfl rfl rfl hl fun b _ _ hu => ?_
      have hgroup : (fs.setSb sb).groupOf b = fs.groupOf b := congrArg (Layout.groupOf · b) hl
      rw [blockUsed, hgroup]
      exact hu
    refine .bind (.ret sb) fun sb' fs' heq _ _ => ?_
    cases heq
    exact .bind (.modify hset) fun _ fs' heq _ _ => journalCapture_skirts g

end Captures

section Groups

variable {idx : Nat} {m : BlockGroupMetadata} {b : Nat}

structure Home (t : InodeTable) (fs : Fs) (b : Nat) : Prop where
  superblock : b ≠ SuperBlock.superblockBid
  tables : ¬fs.layout.Tables b

section

variable (hz : fs.Zoned t) (hidx : idx < fs.sb.nrBlockGroups)

include hz hidx

theorem Zoned.blockBitmap_home :
    Home t fs (fs.groups idx).metadata.desc.blockBitmapBid where
  superblock := hz.steady.wf.blockBitmap_ne_sb idx hidx
  tables ht := hz.tabled.system _ ht (metaBids_subset hidx (by
    simp [BlockGroup.metaBids, GroupLayout.metaBids, BlockGroup.layout]))

theorem Zoned.inodeBitmap_home :
    Home t fs (fs.groups idx).metadata.desc.inodeBitmapBid where
  superblock := hz.steady.wf.inodeBitmap_ne_sb idx hidx
  tables ht := hz.tabled.system _ ht (metaBids_subset hidx (by
    simp [BlockGroup.metaBids, GroupLayout.metaBids, BlockGroup.layout]))

theorem Zoned.desc_home :
    Home t fs (fs.groups idx).descBlockBid where
  superblock := hz.steady.wf.desc_ne_sb idx hidx
  tables ht := hz.tabled.system _ ht (metaBids_subset hidx (fs.groups idx).descBlockBid_mem)

end

theorem Aside.overlay (hb : Home t fs b) (image : Nat → Option Block) (live : Bool) (f : Block → Block) :
    (∀ x, fs.layout.Tables x → Fs.overlay live b f image x = image x) ∧
      Fs.overlay live b f image superblockBid = image superblockBid := by
  constructor
  · intro x hx
    rw [Fs.overlay, if_neg]
    rintro ⟨rfl, -⟩
    exact hb.tables hx
  · rw [Fs.overlay, if_neg]
    rintro ⟨hx, -⟩
    exact hb.superblock hx.symm

theorem Aside.setMetadata (hr : fs.Ready)
    (hlayout : ({ fs.groups idx with metadata := m } : BlockGroup).layout = (fs.groups idx).layout)
    (hused : ∀ b, fs.layout.Contains b → fs.Guarded b → fs.groupOf b = idx →
      (fs.groups idx).metadata.blockBitmap.isAllocated (b - (fs.groups idx).firstBlock) = true →
      m.blockBitmap.isAllocated (b - (fs.groups idx).firstBlock) = true) :
    fs.Aside (fs.setMetadata idx m) := by
  have hl := layout_setMetadata hlayout
  refine .of_same hr rfl rfl rfl hl fun b hc hg hu => ?_
  have hgroup : (fs.setMetadata idx m).groupOf b = fs.groupOf b := congrArg (Layout.groupOf · b) hl
  rw [blockUsed, hgroup]
  by_cases hidx : fs.groupOf b = idx
  · subst hidx
    simp only [Fs.setMetadata, Function.update_self]
    exact hused b hc hg rfl hu
  · simp only [Fs.setMetadata, Function.update_of_ne hidx]
    exact hu

theorem publish_aside {access : WriteAccess} {bid : Nat} (hz : fs.Zoned t)
    (hset : fs.Aside (fs.setMetadata idx m)) (hidx : idx < fs.sb.nrBlockGroups) (hbid : Home t fs bid)
    (g : JournalGeometry) (bitmap : IdBitmap)
    (h1 : (fs.setMetadata idx m).Evolves fs' fs.image (fs.groups idx).metaBids) (hg : fs'.Granted access bid) :
    (publish g (fs.groups idx) access bitmap m).Leaves fs' fs.Aside := by
  have hfirst := Aside.overlay hbid fs.image fs.handle.isSome fun _ => bitmap.asBytes
  have hsecond := Aside.overlay (hz.desc_home hidx)
    (Fs.overlay fs.handle.isSome bid (fun _ => bitmap.asBytes) fs.image) fs.handle.isSome
    ((fs.groups idx).patchDesc m)
  have hl := hset.layout
  refine (publish_ends bitmap m h1 hg).mono (fun _ fs'' h => hset.trans (h.aside ?_ ?_))
    fun _ fs'' h => hset.trans (h.1.aside ?_ ?_)
  · intro x hx
    rw [hl] at hx
    exact (hsecond.1 x hx).trans (hfirst.1 x hx)
  · exact congrArg (Option.map readHead) (hsecond.2.trans hfirst.2)
  · intro x hx
    rw [hl] at hx
    exact hfirst.1 x hx
  · exact congrArg (Option.map readHead) hfirst.2

theorem image_withJournal {j : Journal} (hj : fs.journal = some j) (j' : Journal)
    (hst : j'.state = j.state) (x : Nat) : ({ fs with journal := some j' } : Fs).image x = fs.image x := by
  simp only [Fs.image, hj, hst]

theorem abortJournalOnFsError_skirts : fs.Skirts t abortJournalOnFsError := by
  refine .modify fun hz => ?_
  cases hz.steady.ready with
  | plain hh hj =>
    have hlive := hz.live
    rw [hh] at hlive
    cases hlive
  | @live h j txn hl =>
    rw [hl.handle, hl.journal, Option.map_some]
    have himage := image_withJournal hl.journal
      { j with aborted := true, sbError := sErrnoErrorMarker } rfl
    refine ⟨rfl, .live ⟨rfl, rfl, hl.serves, hl.credits⟩, by rw [hl.handle], fun x _ => himage x,
      fun hk => ?_, fun x _ _ hu => hu⟩
    exact (congrArg (Option.map readHead) (himage _)).trans hk

theorem len_clearBits (bits : List Nat) (bm : IdBitmap) : (IdBitmap.clearBits bits bm).1.len = bm.len := by
  induction bits generalizing bm with
  | nil => rfl
  | cons bit bits ih =>
    unfold IdBitmap.clearBits
    split
    · exact (ih _).trans (IdBitmap.len_free bm bit)
    · exact ih bm

variable (g : JournalGeometry)

section

variable (hidx : idx < fs.sb.nrBlockGroups)
include hidx

theorem groupFreeBlocks_skirts (hle : startBit + count ≤ (fs.groups idx).metadata.blockBitmap.len)
    (hrun : ∀ b ∈ run ((fs.groups idx).firstBlock + startBit) count, ¬fs.Guarded b) :
    fs.Skirts t (BlockGroup.freeBlocks g idx startBit count) := by
  intro hz
  refine .bind_get ?_
  dsimp only
  split
  · exact Skirting.bind abortJournalOnFsError_skirts (fun _ _ _ _ _ => .fail _) hz
  · have hbits : ∀ i ∈ range' startBit count, i < (fs.groups idx).metadata.blockBitmap.len :=
      fun i hi => by
        have := List.mem_range'_1.mp hi
        omega
    have hspec := (IdBitmap.clearBits_spec _ hbits).2.1
    have hset : ∀ m : BlockGroupMetadata, m.blockBitmap =
          (IdBitmap.clearBits (range' startBit count) (fs.groups idx).metadata.blockBitmap).1 →
        ({ fs.groups idx with metadata := m } : BlockGroup).layout = (fs.groups idx).layout →
        fs.Aside (fs.setMetadata idx m) := by
      intro m hm hlayout
      refine .setMetadata hz.steady.ready hlayout fun b hc hg hidx' hu => ?_
      rw [hm, hspec, if_neg]
      · exact hu
      · intro hmem
        have hr := List.mem_range'_1.mp hmem
        have hlo : (fs.groups idx).firstBlock ≤ b := by
          have hlow := (hz.steady.wf.located hc).2.1
          rw [show fs.layout.groupOf b = idx from hidx'] at hlow
          exact hlow
        exact hrun b ⟨by omega, by omega⟩ hg
    refine (getWriteAccess_ends hz.steady.ready _).bindOr (fun _ _ h => h.1.aside_same) fun access fs1 h1 => ?_
    obtain ⟨h1, hg⟩ := h1
    replace h1 := h1.weaken (blockBitmapBid_subset _)
    refine .bind_modify ?_
    split
    · refine .fail ((hset _ rfl ?_).trans (h1.setMetadata idx _).aside_same)
      simp only [BlockGroup.layout, len_clearBits]
    · refine .bind_modify ?_
      rw [setMetadata_setMetadata]
      refine (publish_aside hz (hset _ rfl ?_) hidx (hz.blockBitmap_home hidx) g _
        (h1.setMetadata idx _) (hg.setMetadata idx _)).bind fun _ fs2 h2 => .ret h2
      simp only [BlockGroup.layout, len_clearBits]

theorem groupAllocBlocks_skirts (count sbFreeBlocks : Nat)
    (pinnedFrees : List (Nat × Nat)) :
    fs.Skirts t (BlockGroup.allocBlocks g idx count sbFreeBlocks pinnedFrees) := by
  intro hz
  refine .bind_get ?_
  refine (getWriteAccess_ends hz.steady.ready _).bindOr (fun _ _ h => h.1.aside_same) fun access fs1 h1 => ?_
  obtain ⟨h1, hg⟩ := h1
  replace h1 := h1.weaken (blockBitmapBid_subset _)
  have hundo := (h1.restored idx).aside_same
  rcases (fs.groups idx).search_cases count sbFreeBlocks pinnedFrees with hs | ⟨range, bitmap, hs, htakes⟩
  · rw [hs]
    refine .bind_modify ?_
    split_ifs
    · exact .fail hundo
    · exact .ret hundo
  · rw [hs]
    dsimp only
    split_ifs
    · refine .bind_modify (.fail ?_)
      rw [show bitmap.freeConsecutive range = _ from htakes.free]
      exact hundo
    · refine .bind_modify ?_
      refine (publish_aside hz ?_ hidx (hz.blockBitmap_home hidx) g _
        (h1.setMetadata idx _) (hg.setMetadata idx _)).bind fun _ fs2 h2 => .ret h2
      refine .setMetadata hz.steady.ready ?_ fun b _ _ _ hu => ?_
      · rw [BlockGroupDesc.clearBlockUninit_eq]
        simp only [BlockGroup.layout, htakes.len]
      · dsimp only
        rw [htakes.bits]
        split
        · rfl
        · exact hu

theorem groupFreeInode_skirts (localIdx : Nat) (type : InodeType) :
    fs.Skirts t (BlockGroup.freeInode g idx localIdx type) := by
  intro hz
  refine .bind_get ?_
  dsimp only
  split
  · exact .ret (.refl hz.steady.ready)
  · refine (getWriteAccess_ends hz.steady.ready _).bindOr (fun _ _ h => h.1.aside_same) fun access fs1 h1 => ?_
    obtain ⟨h1, hg⟩ := h1
    replace h1 := h1.weaken (inodeBitmapBid_subset _)
    split
    · exact .fail h1.aside_same
    · split
      · exact .fail h1.aside_same
      · refine .bind_modify ?_
        refine (publish_aside hz ?_ hidx (hz.inodeBitmap_home hidx) g _
          (h1.setMetadata idx _) (hg.setMetadata idx _)).bind fun _ fs2 h2 => .ret h2
        refine .setMetadata hz.steady.ready ?_ fun b _ _ _ hu => hu
        simp only [BlockGroup.layout, IdBitmap.len_free]

end

end Groups

section Volume

variable (g : JournalGeometry) {current : Nat} {sb : SuperBlock}

theorem Forgets.aside (h : fs.Forgets fs' start count)
    (hrun : ∀ b ∈ run start count, ¬fs.Guarded b) : fs.Aside fs' := by
  have hout : ∀ b, fs.Guarded b → fs'.image b = fs.image b := fun b hb => h.image b fun hmem =>
    hrun b (by have := List.mem_range'_1.mp hmem; exact ⟨by omega, by omega⟩) hb
  have hl : fs'.layout = fs.layout := by simp only [Fs.layout, h.sb, h.groups]
  refine ⟨hl, h.ready, h.mode, fun b hb => hout b (.inr hb), fun hk => ?_, fun b _ _ hu => ?_⟩
  · rw [HeadKept, headOrphan, hout _ (.inl (Layout.superblockBid_mem _)), h.sb]
    exact hk
  · simpa only [blockUsed, groupOf, h.sb, h.groups] using hu

theorem dischargeDuty_skirts (duty : Bool)
    (hrun : ∀ b ∈ run start count, ¬fs.Guarded b) : fs.Skirts t (dischargeDuty duty start count) := by
  unfold dischargeDuty
  split
  · exact .of_ends (fun hz => discharge_ends hz.steady.ready start count) (fun _ _ h => h.aside hrun)
      fun _ _ h => h.elim
  · exact .ret ()

theorem freeRun_skirts {idx : Nat} (hidx : idx < fs.sb.nrBlockGroups)
    (hstart : current = (fs.groups idx).firstBlock + startBit)
    (hle : startBit + count ≤ (fs.groups idx).metadata.blockBitmap.len)
    (hrun : ∀ b ∈ run current count, ¬fs.Guarded b) :
    fs.Skirts t (freeRun g idx startBit current count) := by
  subst hstart
  refine .bind (groupFreeBlocks_skirts g hidx hle hrun) fun freed fs1 _ _ _ => ?_
  refine .bind (.of_ends (fun hz => pinFreedRun_ends hz.steady.ready _ _) (fun _ _ h => h.aside_same)
    fun _ _ h => h.elim) fun _ fs2 _ _ _ => ?_
  split
  · refine updateSb_skirts g fun sb hinc => ?_
    rw [incFreeBlocks_ok hinc]
    rfl
  · exact .ret ()

theorem freeRuns_skirts (duty : Bool) {fuel total : Nat} (hfuel : total ≤ fuel)
    (hrun : ∀ b ∈ run start total, fs.layout.Contains b ∧ ¬fs.Guarded b) :
    fs.Skirts t (freeRuns g duty fuel start total) := by
  intro hz
  refine freeRuns_rule (I := fun fs' _ => fs.Aside fs') hz.steady.wf (fun _ _ h => h.layout)
    (fun fs0 idx startBit n count h0 hle hp => ?_) (fun b hb => (hrun b hb).1) hfuel (zero_add _)
    (.refl hz.steady.ready)
  have hpart : ∀ fs', fs.Aside fs' → ∀ b ∈ run (start + n) count, ¬fs'.Guarded b := fun fs' h b hb => by
    rw [Guarded.congr h.layout]
    exact (hrun b ⟨by have := hb.1; omega, by have := hb.2; omega⟩).2
  refine (dischargeDuty_skirts duty (hpart fs0 h0) (h0.zoned hz)).mono (fun _ fs1 h1 => ?_) fun _ _ h => h0.trans h
  replace h1 := h0.trans h1
  have hp1 := hp.congr (h1.layout.trans h0.layout.symm)
  refine (freeRun_skirts g hp1.idx_lt hp1.start hp1.fits (hpart fs1 h1) (h1.zoned hz)).mono
    (fun _ fs2 h2 => h1.trans h2) fun _ fs2 h2 => ?_
  exact (abortJournalOnFsError_skirts ((h1.trans h2).zoned hz)).mono (fun _ _ h3 => (h1.trans h2).trans h3)
    fun _ _ h3 => (h1.trans h2).trans h3

theorem freeBlocks_skirts (auth : BlockFreeAuth)
    (hrun : ∀ b ∈ run auth.start auth.count, fs.layout.Contains b ∧ ¬fs.Guarded b) :
    fs.Skirts t (freeBlocks g auth) := freeRuns_skirts g auth.duty le_rfl hrun

theorem decFreeBlocks_ok {n : Nat} (h : fs.sb.decFreeBlocks n = .ok sb) :
    sb.frame = fs.sb.frame := by
  unfold decFreeBlocks at h
  split at h
  · cases h
    rfl
  · cases h

theorem searchGroups_skirts (count sbFreeBlocks : Nat) (pinnedFrees : List (Nat × Nat)) {ring : List Nat}
    (hring : ∀ idx ∈ ring, idx < fs.sb.nrBlockGroups) (pinnedBlocked : Bool) :
    fs.Skirts t (searchGroups g count sbFreeBlocks pinnedFrees ring pinnedBlocked) := by
  induction ring generalizing fs pinnedBlocked with
  | nil =>
    unfold searchGroups
    split
    · exact .bind (.of_ends (fun hz => requestCommitOfRunning_ends hz.steady.ready)
        (fun _ _ h => h.aside_same) (E := fun _ _ => False) fun _ _ h => h.elim) fun _ _ _ _ _ => .fail _
    · exact .fail _
  | cons idx ring ih =>
    refine .bind (groupAllocBlocks_skirts g (hring idx List.mem_cons_self) count sbFreeBlocks pinnedFrees)
      fun res fs1 _ h1 _ => ?_
    have hnr : fs1.sb.nrBlockGroups = fs.sb.nrBlockGroups :=
      congrArg (fun l : Layout => l.sb.nrBlockGroups) h1.layout
    cases res with
    | noFit pinned => exact ih (fun i hi => hnr ▸ hring i (mem_cons_of_mem idx hi)) _
    | allocated range =>
      exact .bind (updateSb_skirts g fun sb h => decFreeBlocks_ok h) fun _ _ _ _ _ => .ret _

theorem allocBlocks_skirts (count goal : Nat) : fs.Skirts t (allocBlocks g count goal) := by
  unfold allocBlocks
  split
  · exact .fail _
  · refine .bind_get ?_
    split
    · exact .fail _
    · exact searchGroups_skirts g _ _ _ groupRing_lt _

theorem incFreeInodes_ok (h : fs.sb.incFreeInodes = .ok sb) :
    sb.frame = fs.sb.frame := by
  unfold incFreeInodes at h
  split at h
  · cases h
  split at h
  · cases h
  · cases h
    rfl

theorem freeInode_skirts (ino : Nat) (type : InodeType) : fs.Skirts t (freeInode g ino type) := by
  refine .bind_get ?_
  cases hfind : findGroup fs.sb ino with
  | error e => exact .bind (.fail e) fun _ _ heq => nomatch heq
  | ok idx =>
    have hidx : idx < fs.sb.nrBlockGroups := by
      unfold findGroup at hfind
      split at hfind
      · cases hfind
      split at hfind
      · cases hfind
      split at hfind
      · cases hfind
      next hlt =>
        cases hfind
        omega
    refine .bind (.ret idx) fun idx' fs' heq _ _ => ?_
    cases heq
    refine .bind (groupFreeInode_skirts g hidx _ type) fun was fs1 _ _ _ => ?_
    split
    · exact updateSb_skirts g fun sb h => incFreeInodes_ok h
    · exact .ret ()

end Volume

def Loose (fs : Fs) (bids : List Nat) : Prop := ∀ b ∈ bids, fs.layout.Contains b ∧ ¬fs.Guarded b

section Nodes

variable {bids old fresh : List Nat} {bid : Nat} (g : JournalGeometry)

theorem Loose.congr (h : fs'.layout = fs.layout) : fs'.Loose bids ↔ fs.Loose bids := by
  simp only [Loose, Guarded.congr h, h]

theorem Loose.aside (h : fs.Loose bids) (ha : fs.Aside fs') : fs'.Loose bids :=
  (Loose.congr ha.layout).mpr h

theorem Loose.not_superblock (h : fs.Loose bids) (hb : bid ∈ bids) : bid ≠ superblockBid := by
  rintro rfl
  exact (h _ hb).2 (.inl (Layout.superblockBid_mem _))

theorem freeBlocks_skirts_of_loose (auth : BlockFreeAuth) (hstart : auth.start = start)
    (hcount : auth.count = count) (h : fs.Loose (range' start count)) :
    fs.Skirts t (freeBlocks g auth) := by
  subst hstart hcount
  refine freeBlocks_skirts g auth fun b hb => h b (List.mem_range'_1.mpr ?_)
  have hlo := hb.1
  have hhi := hb.2
  omega

theorem freeMetaBlock_skirts (h : fs.Loose [bid]) : fs.Skirts t (freeMetaBlock g bid) :=
  freeBlocks_skirts_of_loose g (forget bid 1) rfl rfl h

theorem rollbackMetaBlocks_skirts (h : fs.Loose bids) : fs.Skirts t (rollbackMetaBlocks g bids) := by
  induction bids generalizing fs with
  | nil => exact .ret ()
  | cons bid rest ih =>
    refine .bind (.attempt (freeMetaBlock_skirts g fun b hb => h b ?_)) fun _ fs' _ ha _ => ?_
    · rw [mem_singleton.mp hb]
      exact List.mem_cons_self
    · exact ih (Loose.aside (fun b hb => h b (mem_cons_of_mem bid hb)) ha)

theorem orRollback_skirts {m : FsOp α} (h : fs.Loose bids) (hm : fs.Skirts t m) :
    fs.Skirts t (orRollback g bids m) := by
  refine .bind (.attempt hm) fun res fs' _ ha _ => ?_
  cases res with
  | ok a => exact .ret a
  | error e => exact .bind (rollbackMetaBlocks_skirts g (h.aside ha)) fun _ _ _ _ _ => .fail e

theorem allocMetaBlock_aside (hz : fs.Zoned t) (goal : Nat) :
    (allocMetaBlock g goal).Ends fs (fun bid fs' => fs.Aside fs' ∧ fs.Loose [bid])
      fun _ fs' => fs.Aside fs' := by
  have hskirts : fs.Skirts t (Fs.allocBlocks g 1 goal) := allocBlocks_skirts g 1 goal
  refine ((hskirts hz).and (allocBlocks_ends hz.steady.ready hz.steady.wf g 1 goal)).bindOr (fun _ _ h => h.1) fun r fs' h => ?_
  obtain ⟨ha, hfresh, -⟩ := h
  have hself : r.contains r.start = true := hfresh.single.mpr rfl
  have hloose : fs.Loose [r.start] := fun b hb => by
    rw [mem_singleton.mp hb]
    have hc := hfresh.contains r.start hself
    exact ⟨hc, hz.not_guarded hc (hfresh.clear r.start hself)⟩
  have hloose' := hloose.aside ha
  have hkeep : ∀ {fs'' : Fs} {T : Finset Nat}, (∃ v, fs'.Evolves fs''
      (fun x => if x = r.start ∧ fs'.handle.isSome then some v else fs'.image x) T) → fs.Aside fs'' := by
    rintro fs'' T ⟨v, h⟩
    refine ha.trans (h.aside (fun b hb => if_neg ?_) (congrArg (Option.map readHead) (if_neg ?_)))
    · rintro ⟨rfl, -⟩
      exact (hloose' _ List.mem_cons_self).2 (.inr hb)
    · rintro ⟨hb, -⟩
      exact hloose'.not_superblock List.mem_cons_self hb.symm
  exact ((getCreateAccess_ends ha.ready r.start).mono (fun _ _ h => hkeep h.1)
    fun _ _ h => hkeep h.1).bind fun _ fs'' h => .ret ⟨h, hloose⟩

theorem Loose.append (h : fs.Loose bids) (h' : fs.Loose old) : fs.Loose (bids ++ old) := by
  intro b hb
  rcases mem_append.mp hb with hb | hb
  · exact h b hb
  · exact h' b hb

theorem allocateNew_aside (hz : fs.Zoned t) (h : fs.Loose fresh) (goal count : Nat) :
    (allocateNew g goal count fresh).Ends fs (fun bids fs' => fs.Aside fs' ∧ fs.Loose bids)
      fun _ fs' => fs.Aside fs' := by
  induction count generalizing fs fresh with
  | zero => exact .ret ⟨.refl hz.steady.ready, h⟩
  | succ count ih =>
    refine Op.Ends.bind (Q := fun bid fs' => fs.Aside fs' ∧ fs.Loose [bid]) ?_ fun bid fs1 h1 => ?_
    · refine Op.Ends.bind (Q := fun res fs' => fs.Aside fs' ∧ ∀ bid, res = .ok bid → fs.Loose [bid]) ?_
        fun res fs1 h1 => ?_
      · refine .attempt ((allocMetaBlock_aside g hz goal).mono (fun bid fs' hb => ⟨hb.1, fun bid' he => ?_⟩)
          fun e fs' hb => ⟨hb, fun _ he => nomatch he⟩)
        cases he
        exact hb.2
      · cases res with
        | ok bid => exact .ret ⟨h1.1, h1.2 bid rfl⟩
        | error e =>
          have hz1 := h1.1.zoned hz
          have hback : fs1.Skirts t (rollbackMetaBlocks g fresh) :=
            rollbackMetaBlocks_skirts g (h.aside h1.1)
          exact ((hback hz1).both fun _ hb => h1.1.trans hb).bind
            fun _ fs2 h2 => .fail h2
    · obtain ⟨h1, hbid⟩ := h1
      refine (ih (h1.zoned hz) ((h.append hbid).aside h1)).mono (fun bids fs2 h2 => ?_)
        fun _ fs2 h2 => h1.trans h2
      exact ⟨h1.trans h2.1, (Loose.congr h1.layout).mp h2.2⟩

theorem acquireMetaBlocks_aside (hz : fs.Zoned t) (h : fs.Loose old) (count goal : Nat) :
    (acquireMetaBlocks g old count goal).Ends fs
      (fun r fs' => fs.Aside fs' ∧ fs.Loose r.1 ∧ fs.Loose r.2) fun _ fs' => fs.Aside fs' := by
  refine (allocateNew_aside g hz (fun _ hb => absurd hb not_mem_nil) goal _).bind fun bids fs' h' => .ret ⟨h'.1, ?_, h'.2⟩
  exact Loose.append (fun b hb => h b (mem_of_mem_take hb)) h'.2

theorem writeNode_skirts (h : fs.Loose [bid]) (block : Block) : fs.Skirts t (writeNode g bid block) := by
  intro hz
  refine (getWriteAccess_ends hz.steady.ready bid).bindOr (fun _ _ h => h.1.aside_same) fun access fs1 h1 => ?_
  obtain ⟨h1, hg⟩ := h1
  have hlive : access.isLive = true := by
    cases hg with
    | inert haccess hhandle =>
      have hmode := h1.mode
      rw [hhandle, hz.live] at hmode
      cases hmode
    | captured hl haccess hcap => simp [WriteAccess.isLive, haccess]
  have ha := h1.aside_same
  have hl := h.aside ha
  refine ((patch_ends h1.ready hg fun _ => block).mono (fun _ fs2 h2 => ha.trans (h2.aside_patch
    (hl.not_superblock List.mem_cons_self) fun ht => (hl bid List.mem_cons_self).2 (.inr ht)))
    fun _ _ hf => hf.elim).bind fun _ fs2 h2 => ?_
  rw [if_pos hlive]
  exact .ret h2

theorem Loose.single (h : fs.Loose bids) (hb : bid ∈ bids) : fs.Loose [bid] := fun b hb' => by
  rw [mem_singleton.mp hb']
  exact h bid hb

theorem writeNodes_skirts (enc : β → Block) {plan : List (β × Nat)} (h : ∀ p ∈ plan, fs.Loose [p.2]) :
    fs.Skirts t (Op.each (fun p => writeNode g p.2 (enc p.1)) plan) :=
  .each fun p hp _ ha => writeNode_skirts g ((h p hp).aside ha) _

theorem freeMetaBlocks_skirts (h : fs.Loose bids) : fs.Skirts t (freeMetaBlocks g bids) :=
  .bind (.each fun _ hb _ ha => freeMetaBlock_skirts g ((h.single hb).aside ha)) fun _ _ _ _ _ => .ret _

end Nodes

end Fs

section Trees

open Fs

variable {t : InodeTable} {α : Type} {s : TreeFs} {extents doomed : List Extent} {old external : List Nat}
  (g : JournalGeometry) (csumSeed : Option UInt32) (policy : DataForgetPolicy) {β : Type} {fs : Fs}

abbrev TreeSkirts (t : InodeTable) (s : TreeFs) (m : TreeOp α) : Prop := Skirting TreeFs.fs t s m

theorem onFs_skirts {m : FsOp α} (h : s.fs.Skirts t m) : TreeSkirts t s (onFs m) :=
  .zoom rfl (fun _ => rfl) h

theorem setRoot_skirts (root : Buffer 60) : TreeSkirts t s (setRoot root) :=
  .modify fun hz => .refl hz.steady.ready

theorem account_skirts (blocks : Int) : TreeSkirts t s (account blocks) :=
  .modify fun hz => .refl hz.steady.ready

theorem finish_skirts (h : s.fs.Loose old) (root : Buffer 60) (n m : Nat) :
    TreeSkirts t s (do
      setRoot root
      let metaFreed ← onFs (freeMetaBlocks g (old.drop n))
      Op.ret ⟨m, metaFreed⟩ : TreeOp TreeDelta) :=
  .bind (setRoot_skirts root) fun _ _ _ ha _ => .bind (onFs_skirts (freeMetaBlocks_skirts g
    (Loose.aside (fun b hb => h b (mem_of_mem_drop hb)) ha))) fun _ _ _ _ _ => .ret _

theorem onFs_ok {m : FsOp α} {a : α} {s' : TreeFs} (h : onFs m s = (.ok a, s')) :
    m s.fs = (.ok a, s'.fs) := by
  unfold onFs Op.zoom at h
  cases hm : m s.fs with
  | mk r fs =>
    rw [hm] at h
    cases h
    rfl

theorem acquire_skirts {goal : Nat} {f : List Nat × List Nat → TreeOp β} (h : s.fs.Loose old)
    (hf : ∀ r s', s.fs.Aside s'.fs → s'.fs.Loose r.1 → s'.fs.Loose r.2 → TreeSkirts t s' (f r)) :
    TreeSkirts t s (onFs (acquireMetaBlocks g old count goal) >>= f) := by
  intro hz
  have hends := acquireMetaBlocks_aside g hz h count goal
  refine Skirting.bind (onFs_skirts (.of_ends (fun _ => hends) (fun _ _ h => h.1) fun _ _ h => h))
    (fun r s' heq ha _ => ?_) hz
  obtain ⟨-, hblocks, hfresh⟩ := hends.of_ok (onFs_ok heq)
  exact hf r s' ha (hblocks.aside ha) (hfresh.aside ha)

theorem mem_zip_snd {as : List β} {bids : List Nat} {p : β × Nat} (h : p ∈ as.zip bids) :
    p.2 ∈ bids := (of_mem_zip h).2

theorem reserialize_skirts (h : s.fs.Loose old) : TreeSkirts t s (reserialize g csumSeed extents old) := by
  unfold reserialize
  split
  · exact finish_skirts g h _ 0 0
  dsimp only
  split
  · refine acquire_skirts g h fun r s1 h1 hblocks hfresh => ?_
    obtain ⟨leafBids, fresh⟩ := r
    refine .bind (onFs_skirts (orRollback_skirts g hfresh (writeNodes_skirts g _ fun p hp =>
      hblocks.single (mem_zip_snd hp)))) fun _ s2 _ h2 _ => ?_
    exact finish_skirts g ((h.aside h1).aside h2) _ _ _
  split
  · exact .fail _
  · refine acquire_skirts g h fun r s1 h1 hblocks hfresh => ?_
    obtain ⟨blocks, fresh⟩ := r
    refine .bind (onFs_skirts (orRollback_skirts g hfresh (writeNodes_skirts g _ fun p hp =>
      hblocks.single (mem_of_mem_take (mem_zip_snd hp))))) fun _ s2 _ h2 _ => ?_
    refine .bind (onFs_skirts (orRollback_skirts g (hfresh.aside h2) (writeNodes_skirts g _ fun p hp =>
      (hblocks.aside h2).single (mem_of_mem_drop (mem_zip_snd hp))))) fun _ s3 _ h3 _ => ?_
    exact finish_skirts g (((h.aside h1).aside h2).aside h3) _ _ _

theorem shrinkTree_skirts (h : s.fs.Loose old) (kept : List Extent) (freedData : Nat) :
    TreeSkirts t s (shrinkTree g csumSeed kept old freedData) :=
  .bind (reserialize_skirts g csumSeed h) fun _ _ _ _ _ => account_skirts _

theorem probe_skirts (chunked : Bool) (need : Nat) : fs.Skirts t (probe g chunked need) := by
  refine .bind_get ?_
  split
  · exact .bind (.of_ends (fun hz => tryReserveNext_ends hz.steady.ready need)
      (fun _ _ h => h.aside_same) fun _ _ h => h.elim) fun _ _ _ _ _ => .ret _
  · exact .ret _

theorem freeExtent_skirts {len : Nat} (h : fs.Loose (range' start len)) :
    fs.Skirts t (Fs.freeBlocks g (policy.authorize start len)) :=
  freeBlocks_skirts_of_loose g _ (policy.authorize_start start len) (policy.authorize_count start len) h

theorem freeDoomed_skirts (chunked : Bool) (need : Nat)
    (h : fs.Loose (dataBlocks doomed)) : fs.Skirts t (freeDoomed g policy chunked need doomed) := by
  induction doomed generalizing fs with
  | nil => exact .ret 0
  | cons e rest ih =>
    refine .bind (probe_skirts g chunked need) fun stop fs1 _ h1 _ => ?_
    split
    · exact .ret 0
    · have hsplit : dataBlocks (e :: rest) = dataBlocks [e] ++ dataBlocks rest := dataBlocks_append [e] rest
      rw [hsplit] at h
      refine .bind (freeExtent_skirts g policy fun b hb => ?_) fun _ fs2 _ h2 _ => ?_
      · refine h.aside h1 b (mem_append_left _ (mem_dataBlocks_single.mpr ?_))
        have := List.mem_range'_1.mp hb
        omega
      · refine .bind (ih ?_) fun _ _ _ _ _ => .ret _
        exact Loose.aside (Loose.aside (fun b hb => h b (mem_append_right _ hb)) h1) h2

theorem dataBlocks_subset (h : ∀ e ∈ doomed, e ∈ extents) {b : Nat} (hb : b ∈ dataBlocks doomed) :
    b ∈ dataBlocks extents := by
  obtain ⟨x, hx, rfl⟩ := mem_map.mp hb
  obtain ⟨e, he, hxe⟩ := mem_contents.mp hx
  exact mem_map.mpr ⟨x, mem_contents.mpr ⟨e, h e he, hxe⟩, rfl⟩

theorem freeTail_skirts (chunked : Bool) (need keep : Nat) (stopped : Bool) (h : fs.Loose (dataBlocks extents)) :
    fs.Skirts t (freeTail g policy chunked need keep stopped (extents.find? (Extent.straddles keep))) := by
  cases hfind : extents.find? (Extent.straddles keep) with
  | none => exact .ret _
  | some e =>
    have hmem := mem_of_find?_eq_some hfind
    have hstr : Extent.straddles keep e = true := find?_some hfind
    simp only [Extent.straddles, Bool.and_eq_true, decide_eq_true_eq] at hstr
    have hprobe : fs.Skirts t (probeTail g chunked need stopped) := by
      unfold probeTail
      split
      · exact .ret true
      · exact probe_skirts g chunked need
    refine .bind hprobe fun stop fs1 _ h1 _ => ?_
    split
    · exact .ret _
    · refine .bind (freeExtent_skirts g policy fun b hb => h.aside h1 b ?_) fun _ _ _ _ _ => .ret _
      have hrange := List.mem_range'_1.mp hb
      exact dataBlocks_subset (fun x hx => mem_singleton.mp hx ▸ hmem)
        (mem_dataBlocks_single.mpr ⟨by omega, by omega⟩)

theorem truncateChunk_skirts (h : Stands s extents external)
    (hl : s.fs.Loose (dataBlocks extents ++ external)) (newSize : Nat) (maxCredits : Option Nat) :
    TreeSkirts t s (truncateChunk g csumSeed policy newSize maxCredits) := by
  have hdata : s.fs.Loose (dataBlocks extents) := fun b hb => hl b (mem_append_left _ hb)
  have hnodes : s.fs.Loose external := fun b hb => hl b (mem_append_right _ hb)
  have hdoomed : s.fs.Loose (dataBlocks (doomedAbove (keepBlocks newSize) extents)) := fun b hb =>
    hdata b (dataBlocks_subset (fun e he => (mem_doomedAbove he).1) hb)
  intro hz
  refine .bind_of_eq h.flatten (.bind_get ?_)
  simp only [h.ordered.sortByBlock]
  split
  · exact .fail (.refl hz.steady.ready)
  · refine Skirting.bind (onFs_skirts (freeDoomed_skirts g policy _ _ hdoomed)) (fun k s1 _ h1 _ => ?_) hz
    refine .bind (onFs_skirts (freeTail_skirts g policy _ _ _ _ (hdata.aside h1))) fun r s2 _ h2 _ => ?_
    obtain ⟨rest, tail⟩ := r
    exact .bind (shrinkTree_skirts g csumSeed ((hnodes.aside h1).aside h2) _ _) fun _ _ _ _ _ =>
      .bind_get (.ret _)

end Trees

end Ext4
