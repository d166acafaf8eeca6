import Ext4.Alloc.Search
import Mathlib.Logic.Relation

namespace Ext4

namespace Fs

variable {count ino : Nat} {r : IdRange} {g : JournalGeometry} {type : InodeType}

inductive Event where
  | blocks
  | born (idx i : Nat) (dir : Bool)
  | died (idx i : Nat) (dir : Bool)

inductive Deed (fs : Fs) (idx : Nat) (m : BlockGroupMetadata) (sb : SuperBlock) : Event → Prop
  | claim {count sbFreeBlocks : Nat} {pinnedFrees : List (Nat × Nat)} {r : IdRange}
      (claimed : (fs.groups idx).Claimed count sbFreeBlocks pinnedFrees r m)
      (counted : fs.sb.decFreeBlocks r.len = .ok sb) : Deed fs idx m sb .blocks
  | release {startBit count freedCount : Nat}
      (fits : startBit + count ≤ (fs.groups idx).metadata.blockBitmap.len)
      (released : (fs.groups idx).Released startBit count freedCount m)
      (counted : sb = { fs.sb with freeBlocksCount := fs.sb.freeBlocksCount + freedCount }) :
      Deed fs idx m sb .blocks
  | birth {type : InodeType} {i : Nat}
      (room : type.isDirectory = true → (fs.groups idx).metadata.desc.usedDirsCount ≠ 2 ^ 16 - 1)
      (claimed : (fs.groups idx).ClaimedIno type i m) (counted : fs.sb.decFreeInodes = .ok sb) : Deed fs idx m sb (.born idx i type.isDirectory)
  | death {type : InodeType} {i : Nat} (set : (fs.groups idx).metadata.inodeBitmap.isAllocated i = true)
      (released : (fs.groups idx).ReleasedIno type i m)
      (counted : fs.sb.incFreeInodes = .ok sb) : Deed fs idx m sb (.died idx i type.isDirectory)

structure Stroke (fs fs' : Fs) (idx : Nat) (m : BlockGroupMetadata) (sb : SuperBlock) (bid : Nat)
    (bitmap : IdBitmap) : Prop where
  idx_lt : idx < fs.sb.nrBlockGroups
  republished : Republished (fs.groups idx) m bid bitmap
  frame : sb.frame = fs.sb.frame
  sb : fs'.sb = sb
  groups : fs'.groups = (fs.setMetadata idx m).groups
  ready : fs'.Ready
  mode : fs'.handle.isSome = fs.handle.isSome
  image : ∀ b, b ≠ SuperBlock.superblockBid → fs'.image b =
    (fs.groups idx).publishImage bid bitmap m fs.handle.isSome fs.image b

def Alters (ev : Event) (fs fs' : Fs) : Prop :=
  ∃ idx m sb bid bitmap, fs.Stroke fs' idx m sb bid bitmap ∧ fs.Deed idx m sb ev

structure Rests (F : Set Nat) (fs fs' : Fs) : Prop where
  sb : fs'.sb = fs.sb
  groups : fs'.groups = fs.groups
  ready : fs'.Ready
  mode : fs'.handle.isSome = fs.handle.isSome
  image : ∀ b, b ∉ F → fs'.image b = fs.image b

variable {fs fs' fs'' : Fs} {idx : Nat} {m : BlockGroupMetadata} {sb : SuperBlock} {bid : Nat}
  {bitmap : IdBitmap} {image : Nat → Option Block} {T : Finset Nat} {F : Set Nat} {ev : Event}

theorem Stroke.of_evolves (hidx : idx < fs.sb.nrBlockGroups)
    (hrep : Republished (fs.groups idx) m bid bitmap) (hframe : sb.frame = fs.sb.frame)
    (hev : (fs.rewritten idx m sb).Evolves fs' image T) (himage : ∀ b, b ≠ SuperBlock.superblockBid → image b =
      (fs.groups idx).publishImage bid bitmap m fs.handle.isSome fs.image b) :
    fs.Stroke fs' idx m sb bid bitmap where
  idx_lt := hidx
  republished := hrep
  frame := hframe
  sb := hev.sb
  groups := hev.groups
  ready := hev.ready
  mode := hev.mode
  image b hb := (hev.image b).trans (himage b hb)

theorem overlay_of_ne {live : Bool} {f : Block → Block} {x b : Nat} (h : b ≠ x) :
    overlay live x f image b = image b :=
  if_neg fun hb => h hb.1

theorem Stroke.layout (h : fs.Stroke fs' idx m sb bid bitmap) : fs'.layout = fs.layout := by
  have hset := layout_setMetadata h.republished.layout
  unfold Fs.layout at hset ⊢
  rw [h.sb, h.groups, h.frame]
  exact hset

theorem Alters.layout (h : fs.Alters ev fs') : fs'.layout = fs.layout := by
  obtain ⟨idx, m, sb, bid, bitmap, hstroke, -⟩ := h
  exact hstroke.layout

theorem Rests.layout (h : fs.Rests F fs') : fs'.layout = fs.layout := by
  unfold Fs.layout
  rw [h.sb, h.groups]

theorem Allotted.alters {pinnedFrees : List (Nat × Nat)}
    (h : fs.Allotted fs' count pinnedFrees r idx m sb) : fs.Alters .blocks fs' := by
  have hrew := h.rewrites
  refine ⟨idx, m, sb, _, _, .of_evolves h.idx_lt ⟨hrew.layout, .inl ⟨rfl, rfl, hrew.inodeBitmap⟩⟩ hrew.frame
    h.evolves fun b hb => overlay_of_ne hb, .claim h.claimed h.counted⟩

theorem allocBlocks_alters {goal : Nat} (hr : fs.Ready)
    (h : allocBlocks g count goal fs = (.ok r, fs')) : fs.Alters .blocks fs' := by
  have hends : (allocBlocks g count goal).Ends fs (fun _ fs' => fs.Alters .blocks fs') fun _ _ => True := by
    have hsame : fs.Evolves fs fs.image fs.layout.systemBids := (Evolves.refl hr).weaken (by simp)
    unfold allocBlocks
    split
    · exact .fail trivial
    · refine .bind_get ?_
      split
      · exact .fail trivial
      · refine (searchGroups_ends hsame count _ groupRing_lt false).mono (fun r fs1 h1 => ?_)
          fun _ _ _ => trivial
        obtain ⟨idx, m, sb, hallotted⟩ := h1
        exact hallotted.alters
  exact hends.of_ok h

theorem Returned.alters {startBit : Nat} (hidx : idx < fs.sb.nrBlockGroups)
    (hle : startBit + count ≤ (fs.groups idx).metadata.blockBitmap.len)
    (h : fs.Returned fs' idx startBit count m) : fs.Alters .blocks fs' := by
  cases h with
  | @counted freedCount sb hrel hsb hev =>
    have hrew : fs.Rewrites idx m sb := Released.rewrites hidx hrel hle (by rw [hsb]; rfl)
      (by rw [hsb]) (by rw [hsb])
    exact ⟨idx, m, sb, _, _, .of_evolves hidx ⟨hrew.layout, .inl ⟨rfl, rfl, hrew.inodeBitmap⟩⟩ hrew.frame
      hev fun b hb => overlay_of_ne hb, .release hle hrel hsb⟩
  | double hrel hev =>
    have hrew : fs.Rewrites idx m fs.sb := Released.rewrites hidx hrel hle rfl rfl rfl
    exact ⟨idx, m, fs.sb, _, _, .of_evolves hidx ⟨hrew.layout, .inl ⟨rfl, rfl, hrew.inodeBitmap⟩⟩ rfl
      hev fun _ _ => rfl, .release hle hrel rfl⟩

def Sheds (F : Set Nat) : Fs → Fs → Prop :=
  Relation.ReflTransGen fun fs fs' => fs.Rests F fs' ∨ fs.Alters .blocks fs'

theorem dischargeDuty_rests (hr : fs.Ready) (duty : Bool) (start count : Nat) :
    (dischargeDuty duty start count).Ends fs (fun _ fs' => fs.Rests (run start count) fs')
      fun _ _ => False := by
  unfold dischargeDuty
  split_ifs
  · refine (discharge_ends hr start count).mono (fun _ _ h => ⟨h.sb, h.groups, h.ready, h.mode, ?_⟩)
      fun _ _ h => h
    intro b hb
    refine h.image b fun hmem => hb ?_
    have hin := List.mem_range'_1.mp hmem
    exact ⟨hin.1, hin.2⟩
  · exact .ret ⟨rfl, rfl, hr, rfl, fun _ _ => rfl⟩

theorem freeRuns_sheds (hr : fs.Ready) (hw : fs.layout.Wf) (duty : Bool) {fuel start total : Nat}
    (hfuel : total ≤ fuel) (hrun : ∀ b ∈ run start total, fs.layout.Contains b) (hF : run start total ⊆ F) :
    (freeRuns g duty fuel start total).Ends fs
      (fun _ fs' => fs'.layout = fs.layout ∧ fs.Sheds F fs' ∧ fs'.Ready) fun _ _ => True := by
  refine freeRuns_rule (I := fun fs' _ => fs'.layout = fs.layout ∧ fs.Sheds F fs' ∧ fs'.Ready) hw (fun _ _ h => h.1)
    (fun fs₀ idx startBit n count h0 hle hp => ?_) hrun hfuel (zero_add _) ⟨rfl, .refl, hr⟩
  obtain ⟨hlayout, hsheds, hready⟩ := h0
  refine (dischargeDuty_rests hready duty _ count).mono (fun _ fs1 h1 => ?_) fun _ _ h => h.elim
  have hp1 := hp.congr h1.layout
  refine (freeRun_returns h1.ready hp1.idx_lt hp1.fits).mono (fun _ fs2 h2 => ?_) fun _ _ _ => .modify trivial
  obtain ⟨m, hreturned⟩ := h2
  have halters := hreturned.alters hp1.idx_lt hp1.fits
  have hrest : fs₀.Rests F fs1 := ⟨h1.sb, h1.groups, h1.ready, h1.mode, fun b hb => h1.image b fun hin =>
    hb (hF ⟨by have := hin.1; omega, by have := hin.2; omega⟩)⟩
  refine ⟨halters.layout.trans (h1.layout.trans hlayout), (hsheds.tail (.inl hrest)).tail (.inr halters), ?_⟩
  obtain ⟨_, _, _, _, _, hstroke, -⟩ := halters
  exact hstroke.ready

theorem freeBlocks_sheds {auth : BlockFreeAuth} (hr : fs.Ready) (hw : fs.layout.Wf)
    (hrun : ∀ b ∈ run auth.start auth.count, fs.layout.Contains b) (hF : run auth.start auth.count ⊆ F)
    (h : freeBlocks g auth fs = (.ok (), fs')) :
    fs.Sheds F fs' ∧ fs'.Ready :=
  ((freeRuns_sheds hr hw auth.duty le_rfl hrun hF).of_ok h).2

def inoGroup (fs : Fs) (ino : Nat) : Nat := (ino - 1) / fs.sb.inodesPerGroup

def inoBit (fs : Fs) (ino : Nat) : Nat := (ino - 1) % fs.sb.inodesPerGroup

theorem decFreeInodes_eq (h : fs.sb.decFreeInodes = .ok sb) :
    0 < fs.sb.freeInodesCount ∧ sb = { fs.sb with freeInodesCount := fs.sb.freeInodesCount - 1 } := by
  unfold SuperBlock.decFreeInodes at h
  split_ifs at h with hpos
  exact ⟨hpos, (Except.ok.inj h).symm⟩

theorem incFreeInodes_eq (h : fs.sb.incFreeInodes = .ok sb) :
    sb = { fs.sb with freeInodesCount := fs.sb.freeInodesCount + 1 } := by
  unfold SuperBlock.incFreeInodes at h
  split_ifs at h
  exact (Except.ok.inj h).symm

theorem allocIno_room (idx : Nat) (type : InodeType) :
    (BlockGroup.allocIno g idx type).Ends fs (fun res _ => res.isSome = true → type.isDirectory = true →
      (fs.groups idx).metadata.desc.usedDirsCount ≠ 2 ^ 16 - 1) fun _ _ => True := by
  refine .bind_get ?_
  dsimp only
  split
  · exact .ret fun h => by cases h
  · split
    · exact .ret fun h => by cases h
    · split
      next hover => exact .fail trivial
      next hroom =>
        refine (Op.Ends.any _ _).bind fun _ _ _ => ?_
        split
        · exact (Op.Ends.any _ _).bind fun _ _ _ => .fail trivial
        · refine (Op.Ends.any _ _).bind fun _ _ _ => (Op.Ends.any _ _).bind fun _ _ _ => .ret ?_
          intro _ hdir hfull
          exact hroom ⟨hdir, hfull⟩

def Bore (fs : Fs) (type : InodeType) (ino : Nat) (fs' : Fs) : Prop :=
  ∃ idx i, i < (fs.groups idx).metadata.inodeBitmap.len ∧ ino = idx * fs.sb.inodesPerGroup + i + 1 ∧
    fs.Alters (.born idx i type.isDirectory) fs'

theorem searchInodeGroups_alters (hr : fs.Ready) (type : InodeType)
    {ring : List Nat} (hring : ∀ idx ∈ ring, idx < fs.sb.nrBlockGroups) :
    (searchInodeGroups g type ring).Ends fs
      (fun ino fs' => fs.Bore type ino fs') fun _ _ => True := by
  induction ring with
  | nil => exact .fail trivial
  | cons idx ring ih =>
    have hidx := hring idx List.mem_cons_self
    refine ((BlockGroup.allocIno_ends hr g idx type).and (allocIno_room idx type)).bindOr (fun _ _ _ => trivial) fun res fs1 h1 => ?_
    obtain ⟨h1, hroom⟩ := h1
    cases res with
    | none =>
      obtain rfl : fs1 = fs := h1
      exact ih fun k hk => hring k (List.mem_cons_of_mem idx hk)
    | some i =>
      obtain ⟨m, hclaimed, h1⟩ := h1
      refine .bind_get ?_
      dsimp only
      by_cases hvalid : idx * fs1.sb.inodesPerGroup + i + 1 < 2 ^ 32 ∧
          fs1.sb.firstIno ≤ idx * fs1.sb.inodesPerGroup + i + 1 ∧
            idx * fs1.sb.inodesPerGroup + i + 1 ≤ fs1.sb.inodesCount
      · rw [if_pos hvalid]
        refine Op.Ends.bind (Q := fun _ fs2 => fs.Alters (.born idx i type.isDirectory) fs2)
          ((updateSb_ends h1.ready _).mono (fun _ fs2 h2 => ?_) fun _ _ _ => trivial) fun _ fs2 h2 => .ret ?_
        · obtain ⟨sb, hdec, h2⟩ := h2
          rw [h1.sb] at hdec
          refine ⟨idx, m, sb, _, _, .of_evolves hidx (ClaimedIno.republished hclaimed) ?_
            ((h1.setSb sb).patch h2) fun b hb => overlay_of_ne hb, .birth (hroom rfl) hclaimed hdec⟩
          rw [(decFreeInodes_eq hdec).2]
          rfl
        · rw [h1.sb]
          exact ⟨idx, i, hclaimed.lt, rfl, h2⟩
      · rw [if_neg hvalid]
        exact (Op.Ends.any _ _).bind fun _ _ _ => .fail trivial

theorem allocIno_alters {parentIno : Nat} (hr : fs.Ready) (h : allocIno g parentIno type fs = (.ok ino, fs')) :
    fs.Bore type ino fs' := by
  have hends : (allocIno g parentIno type).Ends fs (fun ino fs' => fs.Bore type ino fs') fun _ _ => True := by
    unfold allocIno
    split
    · exact .fail trivial
    · refine .bind_get ?_
      split
      · exact .fail trivial
      · split
        · exact .fail trivial
        · exact searchInodeGroups_alters hr type groupRing_lt
  exact hends.of_ok h

theorem freeInode_true {i : Nat} (hset : (fs.groups idx).metadata.inodeBitmap.isAllocated i = true) :
    (BlockGroup.freeInode g idx i type).Ends fs (fun was _ => was = true) fun _ _ => True := by
  refine .bind_get ?_
  dsimp only
  rw [if_neg (by simp [hset])]
  refine (Op.Ends.any _ _).bind fun _ _ _ => ?_
  split
  · exact .fail trivial
  · split
    · exact .fail trivial
    · exact .bind_modify ((Op.Ends.any _ _).bind fun _ _ _ => .ret rfl)

theorem findGroup_place (h : findGroup fs.sb ino = .ok idx) :
    idx = fs.inoGroup ino ∧ idx < fs.sb.nrBlockGroups ∧ 0 < ino := by
  unfold findGroup at h
  split_ifs at h with hzero hover hout
  cases h
  exact ⟨rfl, Nat.lt_of_not_le hout, Nat.pos_of_ne_zero hzero⟩

def inoUsed (fs : Fs) (ino : Nat) : Bool :=
  (fs.groups (fs.inoGroup ino)).metadata.inodeBitmap.isAllocated (fs.inoBit ino)

theorem freeInode_alters (hr : fs.Ready) (h : freeInode g ino type fs = (.ok (), fs')) :
    fs' = fs ∨ 0 < ino ∧ fs.inoUsed ino = true ∧
      fs.Alters (.died (fs.inoGroup ino) (fs.inoBit ino) type.isDirectory) fs' := by
  have hends : (freeInode g ino type).Ends fs (fun _ fs' => fs' = fs ∨ 0 < ino ∧ fs.inoUsed ino = true ∧
      fs.Alters (.died (fs.inoGroup ino) (fs.inoBit ino) type.isDirectory) fs') fun _ _ => True := by
    refine .bind_get ?_
    refine Op.Ends.bind (Q := fun idx fs1 => fs1 = fs ∧ findGroup fs.sb ino = .ok idx)
      (.ofExcept (fun _ ha => ⟨rfl, ha⟩) fun _ _ => trivial) ?_
    rintro idx fs1 ⟨rfl, hfind⟩
    obtain ⟨rfl, hidx, hpos⟩ := findGroup_place hfind
    change Op.Ends (do
      let wasAllocated ← BlockGroup.freeInode g (fs1.inoGroup ino) (fs1.inoBit ino) type
      if wasAllocated then updateSb g SuperBlock.incFreeInodes else Op.ret ()) fs1 _ _
    by_cases hset : fs1.inoUsed ino = true
    · refine ((BlockGroup.freeInode_ends hr type hset).and (freeInode_true hset)).bindOr (fun _ _ _ => trivial) fun was fs2 h2 => ?_
      obtain ⟨⟨m, hreleased, h2⟩, rfl⟩ := h2
      rw [if_pos rfl]
      refine (updateSb_ends h2.ready _).mono (fun _ fs3 h3 => .inr ⟨hpos, hset, ?_⟩) fun _ _ _ => trivial
      obtain ⟨sb, hinc, h3⟩ := h3
      rw [h2.sb] at hinc
      refine ⟨_, m, sb, _, _, .of_evolves hidx (ReleasedIno.republished hreleased) ?_
        ((h2.setSb sb).patch h3) fun b hb => overlay_of_ne hb, .death hset hreleased hinc⟩
      rw [incFreeInodes_eq hinc]
      rfl
    · have hclear : (fs1.groups (fs1.inoGroup ino)).metadata.inodeBitmap.isAllocated
          (fs1.inoBit ino) = false := Bool.eq_false_iff.mpr hset
      refine Op.Ends.bind (Q := fun was fs2 => was = false ∧ fs2 = fs1) (.bind_get ?_) ?_
      · dsimp only
        rw [if_pos hclear]
        exact .ret ⟨rfl, rfl⟩
      · rintro _ _ ⟨rfl, rfl⟩
        exact .ret (.inl rfl)
  exact hends.of_ok h

inductive Served (g : JournalGeometry) (F : Set Nat) (turn : Fs → Fs → Prop) (dirs₀ : Nat → Bool)
    (fs₀ : Fs) : (Nat → Bool) → Fs → Prop
  | start : Served g F turn dirs₀ fs₀ dirs₀ fs₀
  | allocBlocks {dirs : Nat → Bool} {fs fs' : Fs} {count goal : Nat} {r : IdRange}
      (h : Served g F turn dirs₀ fs₀ dirs fs) (ok : Fs.allocBlocks g count goal fs = (.ok r, fs')) :
      Served g F turn dirs₀ fs₀ dirs fs'
  | freeBlocks {dirs : Nat → Bool} {fs fs' : Fs} {auth : BlockFreeAuth}
      (h : Served g F turn dirs₀ fs₀ dirs fs)
      (within : ∀ b ∈ run auth.start auth.count, fs.layout.Contains b)
      (allowed : run auth.start auth.count ⊆ F) (ok : Fs.freeBlocks g auth fs = (.ok (), fs')) :
      Served g F turn dirs₀ fs₀ dirs fs'
  | allocIno {dirs : Nat → Bool} {fs fs' : Fs} {parentIno ino : Nat} {type : InodeType}
      (h : Served g F turn dirs₀ fs₀ dirs fs) (ok : Fs.allocIno g parentIno type fs = (.ok ino, fs')) :
      Served g F turn dirs₀ fs₀ (Function.update dirs ino type.isDirectory) fs'
  | freeInode {dirs : Nat → Bool} {fs fs' : Fs} {ino : Nat} {type : InodeType}
      (h : Served g F turn dirs₀ fs₀ dirs fs)
      (own : fs.inoUsed ino = true → dirs ino = type.isDirectory)
      (ok : Fs.freeInode g ino type fs = (.ok (), fs')) : Served g F turn dirs₀ fs₀ dirs fs'
  | turn {dirs : Nat → Bool} {fs fs' : Fs} (h : Served g F turn dirs₀ fs₀ dirs fs) (ht : turn fs fs') :
      Served g F turn dirs₀ fs₀ dirs fs'

structure Upheld (F : Set Nat) (turn : Fs → Fs → Prop) (P : (Nat → Bool) → Fs → Prop) : Prop where
  ready : ∀ {dirs fs}, P dirs fs → fs.Ready
  wf : ∀ {dirs fs}, P dirs fs → fs.layout.Wf
  rests : ∀ {dirs fs fs'}, P dirs fs → fs.Rests F fs' → P dirs fs'
  blocks : ∀ {dirs fs fs'}, P dirs fs → fs.Alters .blocks fs' → P dirs fs'
  born : ∀ {dirs fs fs' idx i d}, P dirs fs → fs.Alters (.born idx i d) fs' →
    i < (fs.groups idx).metadata.inodeBitmap.len →
      P (Function.update dirs (idx * fs.sb.inodesPerGroup + i + 1) d) fs'
  died : ∀ {dirs fs fs' ino}, P dirs fs → 0 < ino →
    fs.Alters (.died (fs.inoGroup ino) (fs.inoBit ino) (dirs ino)) fs' → P dirs fs'
  turn : ∀ {dirs fs fs'}, P dirs fs → turn fs fs' → P dirs fs'

variable {turn : Fs → Fs → Prop} {P : (Nat → Bool) → Fs → Prop} {dirs dirs₀ : Nat → Bool} {fs₀ : Fs}

theorem Sheds.keeps (hP : Upheld F turn P) (hp : P dirs fs) (h : fs.Sheds F fs') : P dirs fs' := by
  induction h with
  | refl => exact hp
  | tail _ hstep ih => exact hstep.elim (hP.rests ih) (hP.blocks ih)

theorem Served.holds (hP : Upheld F turn P) (h0 : P dirs₀ fs₀)
    (h : Served g F turn dirs₀ fs₀ dirs fs) : P dirs fs := by
  induction h with
  | start => exact h0
  | allocBlocks _ ok ih => exact hP.blocks ih (allocBlocks_alters (hP.ready ih) ok)
  | freeBlocks _ within allowed ok ih =>
    exact (freeBlocks_sheds (hP.ready ih) (hP.wf ih) within allowed ok).1.keeps hP ih
  | allocIno _ ok ih =>
    obtain ⟨idx, i, hlt, rfl, halters⟩ := allocIno_alters (hP.ready ih) ok
    exact hP.born ih halters hlt
  | freeInode _ own ok ih =>
    rcases freeInode_alters (hP.ready ih) ok with rfl | ⟨hpos, hset, halters⟩
    · exact ih
    · rw [← own hset] at halters
      exact hP.died ih hpos halters
  | turn _ ht ih => exact hP.turn ih ht

end Fs

end Ext4
