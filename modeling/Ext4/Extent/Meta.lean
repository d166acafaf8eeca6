import Ext4.Alloc.Specimen
import Ext4.Extent.Shape

namespace Ext4

open Fs Finset List

variable {α ε σ : Type} {g : JournalGeometry}

namespace Fs

variable {b n m : Nat} {S : Finset Nat} {r : IdRange}

structure Steady (fs : Fs) : Prop where
  ready : fs.Ready
  wf : fs.layout.Wf
  system : ∀ b ∈ fs.layout.systemBids, fs.layout.Contains b → fs.blockUsed b = true
  narrow : fs.layout.sb.blocksCount ≤ 2 ^ 48

variable {fs fs' base : Fs} {used : Nat → Bool} {written freed : Set Nat}

theorem Steady.not_system (hs : fs.Steady) (hb : fs.layout.Contains b)
    (hclear : fs.blockUsed b = false) : b ∉ fs.layout.systemBids := fun hmem => by
  rw [hs.system b hmem hb] at hclear
  cases hclear

theorem Moves.steady (h : fs.Moves fs' used written freed) (hs : fs.Steady)
    (hused : ∀ b ∈ fs.layout.systemBids, fs.layout.Contains b → used b = true) : fs'.Steady where
  ready := h.ready
  wf := h.layout ▸ hs.wf
  system b hb hc := by
    rw [h.layout] at hb hc
    rw [h.used_eq b hc]
    exact hused b hb hc
  narrow := h.layout ▸ hs.narrow

theorem Synced.readable (hs : fs.Synced) (hb : b ∈ fs.layout.systemBids) :
    fs.image b ≠ none := by
  rcases Finset.mem_insert.mp hb with rfl | hb
  · obtain ⟨buf, hbuf, -⟩ := hs.superblock
    simp [hbuf]
  · obtain ⟨idx, hidx, hb⟩ := mem_biUnion.mp hb
    have hlt : idx < fs.sb.nrBlockGroups := Finset.mem_range.mp hidx
    simp only [GroupLayout.metaBids, Finset.mem_insert, Finset.mem_singleton] at hb
    rcases hb with rfl | rfl | rfl
    · have h : fs.image (fs.layout.group idx).blockBitmapBid = some _ := hs.blockBitmap idx hlt
      simp [h]
    · have h : fs.image (fs.layout.group idx).inodeBitmapBid = some _ := hs.inodeBitmap idx hlt
      simp [h]
    · obtain ⟨buf, hbuf, -⟩ := hs.desc idx hlt
      have h : fs.image ((fs.layout.group idx).descOffset / 4096) = some buf := hbuf
      simp [h]

theorem Covers.less (h : fs.Covers S n) (hle : m ≤ n) : fs.Covers S m :=
  fun hd hhd => le_trans (Nat.add_le_add_left hle _) (h hd hhd)

theorem Covers.grow (h : fs.Covers S (n + 1)) :
    fs.Covers (Insert.insert b S) n := by
  intro hd hhd
  have hle := h hd hhd
  have hcard : ((Insert.insert b S).filter fun x => fs.captured x = false).card ≤
      (S.filter fun x => fs.captured x = false).card + 1 := by
    refine le_trans (card_le_card ?_)
      (card_insert_le b (S.filter fun x => fs.captured x = false))
    intro x hx
    obtain ⟨hx, hcap⟩ := mem_filter.mp hx
    rcases Finset.mem_insert.mp hx with rfl | hx
    · exact mem_insert_self _ _
    · exact mem_insert_of_mem (mem_filter.mpr ⟨hx, hcap⟩)
  omega

theorem Covers.union {bids : List Nat} (h : fs.Covers S (n + bids.length)) :
    fs.Covers (S ∪ bids.toFinset) n := by
  induction bids generalizing n with
  | nil => simpa using h
  | cons b bids ih =>
    have hrest : fs.Covers (S ∪ bids.toFinset) (n + 1) := ih (by
      rw [length_cons] at h
      rwa [add_assoc, add_comm 1])
    rw [toFinset_cons, union_insert]
    exact hrest.grow

structure Grown (base fs : Fs) (fresh : List Nat) : Prop where
  nodup : fresh.Nodup
  clear : ∀ b ∈ fresh, base.layout.Contains b ∧ base.blockUsed b = false
  moves : base.Moves fs (fun b => decide (b ∈ fresh) || base.blockUsed b) {b | b ∈ fresh} ∅
  readable : base.handle.isSome = true → ∀ b ∈ fresh, fs.image b ≠ none

variable {fresh : List Nat}

theorem Grown.refl (hr : fs.Ready) : fs.Grown fs [] where
  nodup := .nil
  clear := by simp
  moves := (Moves.refl hr).weaken (by simp) (by simp) subset_rfl
  readable := by simp

section

variable (h : base.Grown fs fresh)

include h

theorem Grown.steady (hs : base.Steady) : fs.Steady :=
  h.moves.steady hs fun b hb hc => by simp [hs.system b hb hc]

theorem Grown.evolves {T : Finset Nat}
    (hev : fs.Evolves fs' fs.image T) (hT : T ⊆ base.layout.systemBids) : base.Grown fs' fresh where
  nodup := h.nodup
  clear := h.clear
  moves := by
    have hrest : fs.Moves fs' fs.blockUsed ∅ ∅ := hev.moves (fun _ _ => rfl) fun b hb => .inl (by
      rw [h.moves.layout]
      exact hT hb)
    refine (h.moves.trans hrest).weaken (fun b hb => ?_) (by simp) (by simp)
    exact h.moves.used_eq b hb
  readable hlive b hb := by
    rw [hev.image]
    exact h.readable hlive b hb

theorem Grown.covers (hS : base.layout.systemBids ⊆ S) (hc : base.Covers S (n + fresh.length)) :
    fs.Covers (S ∪ fresh.toFinset) n :=
  h.moves.credits _ n (fun _ hb => mem_union_left _ (hS hb))
    (fun _ hb => mem_union_right _ (mem_toFinset.mpr hb)) (fun _ _ hb => hb) hc.union

theorem Grown.synced (hs : base.Steady) (hlive : base.handle.isSome = true) (hsync : base.Synced) : fs.Synced := by
  refine h.moves.synced hlive (fun b hb => ⟨fun hf => ?_, fun hf => hf⟩) hsync
  obtain ⟨hc, hclear⟩ := h.clear b hf
  exact hs.not_system hc hclear hb

end

theorem Fresh.single (h : fs.Fresh 1 r) :
    r.contains b = true ↔ b = r.start := by
  obtain ⟨hpos, hlen, -⟩ := h
  rw [IdRange.contains_iff]
  simp only [IdRange.len] at hlen
  omega

theorem Grown.snoc (h : base.Grown fs fresh) (hs : base.Steady) (hfresh : fs.Fresh 1 r)
    (hmoves : fs.Moves fs' (fun b => r.contains b || fs.blockUsed b) {r.start} ∅)
    (hread : fs.handle.isSome = true → fs'.image r.start ≠ none) :
    base.Grown fs' (fresh ++ [r.start]) := by
  have hself : r.contains r.start = true := hfresh.single.mpr rfl
  have hlayout := h.moves.layout
  have hcontains : base.layout.Contains r.start := hlayout ▸ hfresh.contains r.start hself
  have hclear := hfresh.clear r.start hself
  rw [h.moves.used_eq r.start hcontains, Bool.or_eq_false_iff, decide_eq_false_iff_not] at hclear
  refine ⟨?_, fun b hb => ?_, ?_, fun hlive b hb => ?_⟩
  · rw [nodup_append]
    refine ⟨h.nodup, nodup_singleton _, fun a ha b hb => ?_⟩
    rintro rfl
    rw [List.mem_singleton.mp hb] at ha
    exact hclear.1 ha
  · rcases List.mem_append.mp hb with hb | hb
    · exact h.clear b hb
    · rw [List.mem_singleton.mp hb]
      exact ⟨hcontains, hclear.2⟩
  · refine (h.moves.trans hmoves).weaken (fun b hb => ?_) ?_ (by simp)
    · rw [h.moves.used_eq b hb]
      rw [Bool.eq_iff_iff]
      simp only [Bool.or_eq_true, decide_eq_true_eq, hfresh.single, List.mem_append, List.mem_singleton]
      tauto
    · rintro b (hb | hb)
      · exact List.mem_append_left _ hb
      · exact List.mem_append_right _ (List.mem_singleton.mpr hb)
  · rcases List.mem_append.mp hb with hb | hb
    · have hne : b ≠ r.start := by
        rintro rfl
        exact hclear.1 hb
      obtain ⟨hc, hused⟩ := h.clear b hb
      rw [hmoves.image b (by rw [hlayout]; exact hs.not_system hc hused) (by simpa using hne) (by simp)]
      exact h.readable hlive b hb
    · rw [List.mem_singleton.mp hb]
      exact hread (h.moves.mode.trans hlive)

theorem allocMetaBlock_ends (hs : fs.Steady) (goal : Nat) :
    (allocMetaBlock g goal).Ends fs
      (fun bid fs' => ∃ r, fs.Fresh 1 r ∧ bid = r.start ∧ fs.Moves fs' (fun b => r.contains b || fs.blockUsed
        b) {r.start} ∅ ∧ (fs.handle.isSome = true → fs'.image r.start ≠ none))
      fun _ fs' => fs.Carries fs' ∧ (fs.handle.isSome = true → fs.Synced →
        fs.Covers fs.layout.systemBids 1 → fs.Evolves fs' fs.image fs.layout.systemBids) := by
  refine (allocBlocks_ends hs.ready hs.wf g 1 goal).bindOr (fun _ fs1 h1 => ?_)
    fun r fs1 h1 => ?_
  · rcases h1 with hev | ⟨hshort, hcarries⟩
    · exact ⟨hev.carries, fun _ _ _ => hev⟩
    · refine ⟨hcarries, fun _ hsync hcov => ?_⟩
      rcases hshort with hcredit | ⟨b, hb, hnone⟩
      · exact absurd (hcov.less zero_le) hcredit
      · exact absurd hnone (hsync.readable hb)
  · obtain ⟨hfresh, hmoves⟩ := h1
    refine (getCreateAccess_ends hmoves.ready r.start).bindOr (fun _ fs2 h2 => ?_)
      fun access fs2 h2 => .ret ?_
    · obtain ⟨⟨v, hev⟩, -, hcov⟩ := h2
      refine ⟨hmoves.carries.trans hev.carries, fun _ _ hfund => absurd ?_ hcov⟩
      have hc := hmoves.credits _ 1 (Finset.Subset.refl _) (by simp) (by simp) hfund
      exact hc.mono (empty_subset _)
    · obtain ⟨⟨v, hev⟩, -⟩ := h2
      have hstep : fs1.Moves fs2 fs1.blockUsed {r.start} ∅ :=
        hev.moves (fun b hb => by rw [if_neg]; rintro ⟨rfl, -⟩; exact hb rfl) fun b hb => .inr (by
          simpa using hb)
      refine ⟨r, hfresh, rfl, (hmoves.trans hstep).weaken (fun b hb => ?_) (by simp) (by simp),
        fun hlive => ?_⟩
      · exact hmoves.used_eq b hb
      · rw [hev.image, if_pos ⟨rfl, hmoves.mode.trans hlive⟩]
        simp

def Recoils (base fs : Fs) : Prop :=
  ∃ X : Set Nat, (∀ b ∈ X, base.layout.Contains b ∧ base.blockUsed b = false) ∧
    base.Moves fs base.blockUsed X X

structure Retreats (base : Fs) (funded : Prop) (fs : Fs) (bids : List Nat) : Prop where
  carries : base.Carries fs
  undone : funded → fs.aborted = true ∨ ∃ X : Set Nat,
    (∀ b ∈ X, base.layout.Contains b ∧ base.blockUsed b = false) ∧ (∀ b ∈ bids, b ∈ X) ∧
      base.Moves fs (fun b => decide (b ∈ bids) || base.blockUsed b) X X

variable {funded : Prop} {bids : List Nat}

theorem Grown.retreats (h : base.Grown fs fresh) (funded : Prop) : base.Retreats funded fs fresh where
  carries := h.moves.carries
  undone _ := .inr ⟨{b | b ∈ fresh}, h.clear, fun _ hb => hb,
    h.moves.weaken (fun _ _ => rfl) subset_rfl (Set.empty_subset _)⟩

theorem Retreats.recoils (h : base.Retreats funded fs []) (hf : funded) :
    fs.aborted = true ∨ base.Recoils fs := by
  rcases h.undone hf with ha | ⟨X, hX, -, hmoves⟩
  · exact .inl ha
  · exact .inr ⟨X, hX, hmoves.weaken (by simp) subset_rfl subset_rfl⟩

theorem freeMetaBlock_carries (hr : fs.Ready) (bid : Nat) :
    (freeMetaBlock g bid).Leaves fs fs.Carries :=
  freeRuns_carries hr _ _ _ _

theorem freeMetaBlock_ends (hr : fs.Ready) (hw : fs.layout.Wf) {bid : Nat} (hbid : fs.layout.Contains bid) :
    (freeMetaBlock g bid).Ends fs
      (fun _ fs' => fs.Moves fs' (fun b => fs.blockUsed b && !decide (b = bid)) ∅ {bid})
      fun _ fs' => fs.Spoiled fs' := by
  have hrun : ∀ b, b ∈ run bid 1 ↔ b = bid := fun b => by
    simp only [run, Set.mem_ofPred_eq]
    omega
  refine (freeBlocks_ends hr hw g (forget bid 1) fun b hb => ?_).mono (fun _ fs' h => ?_) fun _ _ h => h
  · rw [(hrun b).mp hb]
    exact hbid
  · refine h.weaken (fun b _ => ?_) subset_rfl fun b hb => (hrun b).mp hb
    refine congrArg (fs.blockUsed b && !·) ?_
    rw [Bool.eq_iff_iff, IdRange.contains_iff, decide_eq_true_eq]
    exact hrun b

section

variable (hs : base.Steady) (hlive : funded → base.handle.isSome = true) (hnodup : bids.Nodup)

include hs hlive hnodup

theorem rollbackMetaBlocks_ends (h : base.Retreats funded fs bids) :
    (rollbackMetaBlocks g bids).Ends fs (fun _ fs' => base.Retreats funded fs' [])
      fun _ _ => False := by
  induction bids generalizing fs with
  | nil => exact .ret h
  | cons bid rest ih =>
    obtain ⟨hnot, hrest⟩ := nodup_cons.mp hnodup
    refine Op.Ends.bind (Q := fun _ fs1 => base.Retreats funded fs1 rest) ?_ fun _ fs1 h1 => ih hrest h1
    refine .attempt ?_
    have hcarries : (freeMetaBlock g bid).Leaves fs base.Carries :=
      (freeMetaBlock_carries h.carries.ready bid).both fun _ hc => h.carries.trans hc
    by_cases hf : funded
    · rcases h.undone hf with ha | ⟨X, hX, hsub, hmoves⟩
      · have hab : (freeMetaBlock g bid).Leaves fs fun fs' => base.Retreats funded fs' rest :=
          (freeMetaBlock_carries h.carries.ready bid).both fun _ hc => ⟨h.carries.trans hc, fun _ => .inl (hc.aborted ha)⟩
        exact hab
      · obtain ⟨hc, hclear⟩ := hX bid (hsub bid mem_cons_self)
        refine (freeMetaBlock_ends hmoves.ready (hmoves.layout ▸ hs.wf) (hmoves.layout ▸ hc)).mono
          (fun _ fs1 h1 => ⟨h.carries.trans h1.carries, fun _ => .inr ⟨X, hX,
            fun b hb => hsub b (mem_cons_of_mem bid hb), ?_⟩⟩)
          fun _ fs1 h1 => ⟨h.carries.trans h1.1, fun _ => .inl (h1.2 (hmoves.mode.trans (hlive hf)))⟩
        refine (hmoves.trans h1).weaken (fun b hb => ?_) (by simp) ?_
        · rw [hmoves.used_eq b hb]
          by_cases hbid : b = bid
          · subst hbid
            simp [hnot, hclear]
          · simp [hbid]
        · rintro b (hb | rfl)
          · exact hb
          · exact hsub b mem_cons_self
    · exact hcarries.both fun _ hc => ⟨hc, fun hf' => absurd hf' hf⟩

theorem orRollback_ends {m : FsOp α} {Q : α → Fs → Prop} {P : Prop}
    (hm : m.Ends fs Q fun _ fs' => base.Retreats funded fs' bids ∧ P) :
    (orRollback g bids m).Ends fs Q fun _ fs' => base.Retreats funded fs' [] ∧ P := by
  refine (Op.Ends.attempt (Q := fun res fs' => (∀ a, res = .ok a → Q a fs') ∧
    ∀ e, res = .error e → base.Retreats funded fs' bids ∧ P) (hm.mono (fun a fs' h => ?_) fun e fs' h => ?_)).bind
    fun res fs1 h1 => ?_
  · exact ⟨fun _ ha => Except.ok.inj ha ▸ h, fun _ ha => by cases ha⟩
  · exact ⟨fun _ ha => (by cases ha), fun _ _ => h⟩
  cases res with
  | ok a => exact .ret (h1.1 a rfl)
  | error e =>
    obtain ⟨hback, hp⟩ := h1.2 e rfl
    exact (rollbackMetaBlocks_ends hs hlive hnodup hback).bindOr (fun _ _ h => h.elim) fun _ fs2 h2 => .fail ⟨h2, hp⟩

end

structure Funds (base : Fs) (S : Finset Nat) (n : Nat) : Prop where
  live : base.handle.isSome = true
  synced : base.Synced
  covers : base.Covers S n

theorem Funds.mono {S' : Finset Nat} (h : base.Funds S n) (hsub : S' ⊆ S) (hle : m ≤ n) :
    base.Funds S' m :=
  ⟨h.live, h.synced, (h.covers.mono hsub).less hle⟩

theorem allocMetaBlock_retreats (hs : base.Steady) (h : base.Grown fs fresh) (goal : Nat)
    (hfund : funded → base.Funds base.layout.systemBids (n + 1 + fresh.length)) :
    (allocMetaBlock g goal).Ends fs (fun bid fs' => base.Grown fs' (fresh ++ [bid]))
      fun _ fs' => base.Retreats funded fs' fresh ∧ True := by
  refine (allocMetaBlock_ends (h.steady hs) goal).mono (fun bid fs' h1 => ?_) fun _ fs' h1 => ?_
  · obtain ⟨r, hfresh, rfl, hmoves, hread⟩ := h1
    exact h.snoc hs hfresh hmoves hread
  · refine ⟨⟨h.moves.carries.trans h1.1, fun hf => ?_⟩, trivial⟩
    have hfund := hfund hf
    have hcov := (h.covers (Finset.Subset.refl _) hfund.covers).mono subset_union_left
    have hev := h1.2 (h.moves.mode.trans hfund.live) (h.synced hs hfund.live hfund.synced) (by
      rw [h.moves.layout]
      exact hcov.less (by omega))
    rw [h.moves.layout] at hev
    exact ((h.evolves hev (Finset.Subset.refl _)).retreats funded).undone hf

theorem allocateNew_ends (hs : base.Steady) (h : base.Grown fs fresh) (goal count : Nat)
    (hfund : funded → base.Funds base.layout.systemBids (count + fresh.length)) :
    (allocateNew g goal count fresh).Ends fs
      (fun bids fs' => base.Grown fs' bids ∧ bids.length = fresh.length + count)
      fun _ fs' => base.Retreats funded fs' [] ∧ 0 < count := by
  induction count generalizing fs fresh with
  | zero => exact .ret ⟨h, rfl⟩
  | succ count ih =>
    refine ((orRollback_ends hs (fun hf => (hfund hf).live) h.nodup (allocMetaBlock_retreats hs h goal
      hfund)).mono (fun _ _ h1 => h1) fun _ _ h1 => ⟨h1.1, Nat.succ_pos count⟩).bind fun bid fs1 h1 => ?_
    refine (ih h1 fun hf => ?_).mono (fun bids fs' h2 => ⟨h2.1, ?_⟩)
      fun _ _ h2 => ⟨h2.1, Nat.succ_pos count⟩
    · have hf' := hfund hf
      rw [length_append, length_singleton]
      rwa [add_assoc, add_comm 1] at hf'
    · rw [h2.2, length_append, length_singleton]
      omega

theorem acquireMetaBlocks_ends (hs : base.Steady) (pool : List Nat)
    (count goal : Nat) (hfund : funded → base.Funds base.layout.systemBids (count - pool.length)) :
    (acquireMetaBlocks g pool count goal).Ends base
      (fun res fs' => res.1 = pool.take count ++ res.2 ∧ res.2.length = count - pool.length ∧ base.Grown fs' res.2)
      fun _ fs' => base.Retreats funded fs' [] ∧ pool.length < count := by
  have hcount : count - min count pool.length = count - pool.length := by omega
  have htake : pool.take (min count pool.length) = pool.take count := by
    rw [take_eq_take_iff]
    omega
  unfold acquireMetaBlocks
  dsimp only
  rw [hcount, htake]
  refine ((allocateNew_ends hs (.refl hs.ready) goal _ hfund).mono (fun _ _ h1 => h1)
    fun _ _ h1 => ⟨h1.1, Nat.lt_of_sub_pos h1.2⟩).bind fun fresh fs1 h1 => .ret ?_
  have hlen : fresh.length = 0 + (count - pool.length) := h1.2
  rw [zero_add] at hlen
  exact ⟨rfl, hlen, h1.1⟩

theorem Recoils.unchanged (h : base.Recoils fs) (hs : base.Steady) (hlive : base.handle.isSome = true)
    (hsync : base.Synced) : base.Unchanged fs := by
  obtain ⟨X, hX, hmoves⟩ := h
  have hsync' : fs.Synced := hmoves.synced hlive (fun b hb =>
    ⟨fun hx => hs.not_system (hX b hx).1 (hX b hx).2 hb, fun hx => hs.not_system (hX b hx).1 (hX b hx).2 hb⟩) hsync
  have hbal := hmoves.balances
  have hblock : ∀ idx < base.sb.nrBlockGroups,
      (fs.groups idx).metadata.blockBitmap = (base.groups idx).metadata.blockBitmap := by
    intro idx hidx
    refine IdBitmap.ext_isAllocated (hbal.blockLen idx) fun i => ?_
    by_cases hi : (base.groups idx).metadata.blockBitmap.len ≤ i
    · exact hbal.padding idx i hi
    · have hbits : (base.groups idx).metadata.blockBitmap.len =
          (base.groups idx).lastBlock - (base.groups idx).firstBlock + 1 := hs.wf.bits idx hidx
      have hfirst : (base.groups idx).firstBlock ≤ (base.groups idx).lastBlock :=
        hs.wf.first_le idx hidx
      have hloc : base.layout.Contains ((base.groups idx).firstBlock + i) ∧
          base.layout.groupOf ((base.groups idx).firstBlock + i) = idx :=
        hs.wf.groupOf_eq hidx (Nat.le_add_right _ _)
          (show (base.groups idx).firstBlock + i ≤ (base.groups idx).lastBlock by omega)
      have hgroup : base.groupOf ((base.groups idx).firstBlock + i) = idx := hloc.2
      have hgroup' : fs.groupOf ((base.groups idx).firstBlock + i) = idx := by
        have h := hloc.2
        rw [← hmoves.layout] at h
        exact h
      have hfirst' : (fs.groups idx).firstBlock = (base.groups idx).firstBlock :=
        congrArg GroupLayout.firstBlock (congrFun (congrArg Layout.group hmoves.layout) idx)
      have hused := hmoves.used_eq _ hloc.1
      unfold Fs.blockUsed at hused
      rwa [hgroup, hgroup', hfirst', Nat.add_sub_cancel_left] at hused
  have htotal : fs.freeTotal = base.freeTotal := by
    have hnr : fs.sb.nrBlockGroups = base.sb.nrBlockGroups := by
      simpa [Fs.layout, SuperBlock.frame] using
        congrArg (fun l => l.sb.nrBlockGroups) hmoves.layout
    unfold Fs.freeTotal
    rw [hnr]
    exact Finset.sum_congr rfl fun idx hidx => by rw [hblock idx (Finset.mem_range.mp hidx)]
  refine .of_synced hsync hsync' hmoves.layout hblock (fun idx _ => hbal.inodeBitmap idx)
    (fun idx hidx => ?_) (fun idx _ => hbal.freeInodes idx) (fun idx _ => hbal.usedDirs idx) ?_
    hbal.inodes
  · have hgroup := hbal.group idx
    rw [hblock idx hidx] at hgroup
    omega
  · have hvolume := hbal.volume
    omega

theorem Spared.unchanged (h : base.Spared fs) (hsync : base.Synced)
    (hcov : base.Covers base.layout.systemBids 0) : base.Unchanged fs := by
  rcases h with hev | ⟨hcredit | ⟨b, hb, hnone⟩, -⟩
  · exact hev.unchanged
  · exact absurd hcov hcredit
  · exact absurd hnone (hsync.readable hb)

end Fs

theorem Specimen.steady (v : Specimen) (g : JournalGeometry) : (v.fs g).Steady where
  ready := .live (v.live g)
  wf := v.wf g
  system b hb hc := by
    have hge := v.taken_ge
    rw [v.systemBids_eq g] at hb
    rw [v.blockUsed_eq g hc.2]
    simp only [Finset.mem_insert, Finset.mem_singleton] at hb
    rw [decide_eq_true_eq]
    omega
  narrow := by
    have hle : (v.fs g).layout.sb.blocksCount ≤ 32768 := v.blocks_le
    omega

theorem eq_ok {r : Except ε α × σ} (h : r.1.isOk = true) : ∃ a, r = (.ok a, r.2) := by
  obtain ⟨res, s⟩ := r
  cases res with
  | ok a => exact ⟨a, rfl⟩
  | error e => cases h

theorem eq_of_toOption {r : Except ε α} {a : α} (h : r.toOption = some a) : r = .ok a := by
  cases r with
  | ok b => exact congrArg Except.ok (Option.some.inj h)
  | error e => cases h

theorem eq_error {r : Except ε α × σ} (h : r.1.isOk = false) :
    ∃ e, r = (.error e, r.2) := by
  obtain ⟨res, s⟩ := r
  cases res with
  | ok a => cases h
  | error e => exact ⟨e, rfl⟩

def lastBlock : Specimen := ⟨16, 15, 6, by decide, by decide, Specimen.bits_16⟩

def secondNode : Except Fault (List Nat × List Nat) × Fs :=
  acquireMetaBlocks Specimen.wide [] 2 0 (lastBlock.fs Specimen.wide)

def crowded : Fs :=
  ((do
    let _ ← Fs.getWriteAccess .small 5
    let _ ← Fs.getWriteAccess .small 6
    Fs.getWriteAccess .small 7 : FsOp WriteAccess) ((⟨16, 8, 4, by decide, by decide, Specimen.bits_16⟩ :
      Specimen).fs .small)).2

end Ext4
