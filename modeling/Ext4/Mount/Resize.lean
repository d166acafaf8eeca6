import Ext4.Extent.Plan
import Ext4.Mount.Cleanup

namespace Ext4

open Op Bytes Journal

variable {α : Type}

namespace Fs

def Spans (fs fs' : Fs) : Prop :=
  fs'.sb.nrBlockGroups = fs.sb.nrBlockGroups ∧ fs'.nrGdtBlocks = fs.nrGdtBlocks

instance : IsPreorder Fs Spans where
  refl _ := ⟨rfl, rfl⟩
  trans _ _ _ h₁ h₂ := ⟨h₂.1.trans h₁.1, h₂.2.trans h₁.2⟩

variable {fs fs' : Fs}

theorem Spans.of_sb (h : fs'.sb = fs.sb) : fs.Spans fs' := by
  simp only [Spans, nrGdtBlocks, h, and_self]

theorem writeDevice_spans (bid : Nat) (block : Block) : Keeps Spans (writeDevice bid block) := by
  intro fs
  unfold writeDevice
  split <;> exact ⟨rfl, rfl⟩

theorem Turns.trans {fs'' : Fs} (h1 : fs.Turns fs') (h2 : fs'.Turns fs'') : fs.Turns fs'' :=
  ⟨h2.sb.trans h1.sb, h2.groups.trans h1.groups, fun b => (h2.image b).trans (h1.image b)⟩

end Fs

namespace Mount

section Model

variable (H : Handles) (cfg : Config)

def unsplittableShrink : Fault :=
  .error .efbig "the extent tree cannot be shrunk within one journal transaction"

def shrinkGate (ino newSize oldSize : Nat) : MountOp Bool :=
  if oldSize ≤ newSize then Op.ret false
  else do
    let inode ← readInode ino
    let m ← Op.get
    match chunkLimit cfg m, inode.tree with
    | some max, some _ =>
      let plan ← onTree ino (planShrink cfg.geometry newSize max)
      if max < plan.wholeEstimate ∧ plan.floorEfbig = true then Op.fail unsplittableShrink
      else Op.ret (decide (max < plan.wholeEstimate))
    | _, _ => Op.ret false

def prepareShrink (ino newSize oldSize : Nat) : MountOp Unit := do
  resizePageCache ino newSize oldSize
  updateDesc ino (InodeDesc.setSize newSize)

def expand (ino newSize oldSize : Nat) : MountOp Unit := do
  ensureSizeWithinLimit ino newSize
  updateDesc ino (InodeDesc.setSize newSize)
  resizePageCache ino newSize oldSize

def shrinkInChunks (ino newSize oldSize rounds : Nat) : MountOp Unit := do
  prepareShrink ino newSize oldSize
  if 2 ^ 32 ≤ blocksOf newSize then Op.fail blockIndexTooBig
  else do
    needTree ino
    let inode ← readInode ino
    let m ← Op.get
    during H (m.fs.truncateCredits (rootDepth inode)) do
      let _ ← orphanAdd cfg ino
      writeBackInodeDesc cfg ino
      registerOrderedData ino newSize
      finishTruncate H cfg ino newSize rounds

def shrink (ino newSize oldSize : Nat) : MountOp Unit := do
  prepareShrink ino newSize oldSize
  truncateToByteLen cfg ino newSize

def shrinkOrExpand (ino newSize oldSize : Nat) : MountOp Unit :=
  if newSize < oldSize then shrink cfg ino newSize oldSize else expand ino newSize oldSize

def resizeInner (ino newSize : Nat) (now : Duration) : MountOp Unit := do
  let inode ← readInode ino
  if newSize = inode.desc.size then Op.ret ()
  else do
    shrinkOrExpand cfg ino newSize inode.desc.size
    updateDesc ino (InodeDesc.setMtimeCtime now)

def resizeOnce (ino newSize oldSize : Nat) (now : Duration) : MountOp Unit := do
  resizeInner cfg ino newSize now
  let m ← Op.get
  Op.when (m.fs.handle.isSome = true) (writeBackInodeDesc cfg ino)
  Op.when (newSize < oldSize) (registerOrderedData ino newSize)

def withOp (credits : Nat) (op : MountOp Unit) : MountOp Unit := do
  let m ← Op.get
  if m.fs.journal.isSome then during H credits op else op

def resize (ino newSize rounds : Nat) (now : Duration) : MountOp Unit := do
  let inode ← readInode ino
  let oldSize := inode.desc.size
  if inode.isDir then Op.fail (.error .eisdir "")
  else do
    let chunked ← shrinkGate cfg ino newSize oldSize
    if chunked then shrinkInChunks H cfg ino newSize oldSize rounds
    else do
      let m ← Op.get
      withOp H (m.fs.truncateCredits (rootDepth inode)) (resizeOnce cfg ino newSize oldSize now)

end Model

section Faults

variable (cfg : Config)

theorem needTree_modest (ino : Nat) : Modest (needTree ino) := by
  refine .bind (readInode_modest ino) fun inode => ?_
  split
  · exact .fail rfl
  · exact .ret ()

theorem registerOrderedData_modest (ino len : Nat) : Modest (registerOrderedData ino len) := by
  rw [registerOrderedData, onFs]
  exact .zoom (Fs.registerOrderedData_modest ino len)

theorem onTree_modest {op : TreeOp α} (h : Modest op) (ino : Nat) : Modest (onTree ino op) := by
  intro m
  refine .intro (fun _ _ _ => trivial) fun e m' hrun => ?_
  unfold onTree at hrun
  split at hrun
  · cases hrun
    rfl
  · split at hrun
    · cases hrun
      rfl
    next tree _ =>
      cases hop : op ⟨tree, m.fs⟩ with
      | mk r s =>
        rw [hop] at hrun
        cases hrun
        exact h.of_error hop

theorem truncateToByteLen_modest (ino newSize : Nat) : Modest (truncateToByteLen cfg ino newSize) :=
  .bind (readInode_modest ino) fun _ => onTree_modest (Ext4.truncateToByteLen_modest _ _ _ newSize) ino

theorem resizePageCache_modest (ino : Nat) {newSize oldSize : Nat} (h : min newSize oldSize / 4096 < 2 ^ 32) :
    Modest (resizePageCache ino newSize oldSize) := by
  refine .bind (readInode_modest ino) fun inode => ?_
  cases inode.tree with
  | none => exact .fail rfl
  | some tree =>
    dsimp only
    split
    · exact .ret ()
    rw [if_neg (not_le.mpr h)]
    refine .bind (.bind (readInode_modest ino) fun inode' => ?_) fun _ => .ret ()
    cases inode'.tree with
    | none => exact .fail rfl
    | some tree' => exact .bind (.zoom (lookup_keeps (R := Eq) tree' _).2) fun _ => .ret _

end Faults

end Mount

structure Handles.Modest (H : Handles) : Prop where
  beginOp : ∀ n, Ext4.Modest (H.beginOp n)
  restart : ∀ n, Ext4.Modest (H.restart n)
  close : Ext4.Modest H.close

namespace Mount

variable {fs fs' : Fs}

section Loop

variable {P : Nat → Prop} {m m' : Mount} {ino limit keep : Nat} {inode : Inode} {tree : ExtentTree}
  (H : Handles) (cfg : Config) {newSize : Nat}

def Roomy (limit keep : Nat) (fs : Fs) (tree : ExtentTree) : Prop :=
  ∃ extents external, Planted fs tree extents external ∧
    (owing keep (2 ^ 32) extents = 0 ∨ truncateNeed fs extents ≤ limit)

theorem truncateNeed_spans (h : fs.Spans fs') (extents : List Extent) :
    truncateNeed fs' extents = truncateNeed fs extents := by
  simp only [truncateNeed, Fs.truncateChunkCredits, Fs.reserializeCredits, h.1, h.2]

theorem Roomy.bears {tree' : ExtentTree} (h : Roomy limit keep fs tree) (hb : fs.Bears fs') (hs : fs.Spans fs')
    (hroot : tree'.root = tree.root) (hsectors : tree'.sectorCount = tree.sectorCount) :
    Roomy limit keep fs' tree' := by
  obtain ⟨extents, external, hp, hroom⟩ := h
  refine ⟨extents, external, ⟨?_, hp.sound, hp.ordered, hb.owns hp.owns, hb.loose hp.loose,
    hsectors.trans hp.sectors⟩, ?_⟩
  · refine hroot ▸ hp.shaped.congr fun b hb' => hb.image b ?_
    exact (hp.loose b (List.mem_append_right _ hb')).2
  · rwa [truncateNeed_spans hs]

def RoomFor (limit keep : Nat) (m : Mount) (ino : Nat) : Prop :=
  ∀ inode tree, m.inodes ino = some inode → inode.tree = some tree → Roomy limit keep m.fs tree

theorem Bears.roomFor (h : m.Bears m') (hs : m.fs.Spans m'.fs) (hr : m.RoomFor limit keep ino) :
    m'.RoomFor limit keep ino := by
  intro inode' tree' hino' htree'
  obtain ⟨inode, hino, hmap⟩ := h.trees ino inode' hino'
  rw [htree', Option.map_some] at hmap
  obtain ⟨tree, htree, hbones⟩ := Option.map_eq_some_iff.mp hmap.symm
  exact (hr inode tree hino htree).bears h.fs hs (congrArg Prod.fst hbones).symm (congrArg Prod.snd hbones).symm

def Spans (m m' : Mount) : Prop := m.fs.Spans m'.fs

instance : IsPreorder Mount Spans where
  refl m := refl_of Fs.Spans m.fs
  trans _ _ _ := trans_of Fs.Spans

theorem writeBackInodeDesc_spans (x : Nat) : Tame Spans (writeBackInodeDesc cfg x) :=
  writeBackInodeDesc_keeps (Q := Fs.Spans) cfg (fun _ _ h => .of_sb h.sb) Fs.writeDevice_spans (fun _ _ h => h)
    fun _ => .modify fun m => refl_of Fs.Spans m.fs

theorem orphanAdd_spans (x : Nat) : Tame Spans (orphanAdd cfg x) := by
  refine .bind .get fun m => ?_
  split
  · exact .ret _
  cases m.chain.successorOf x with
  | some next => exact .ret _
  | none =>
    exact .bind (.lift ⟨Fs.capturePatch_still _ _ _, Fs.capturePatch_modest _ _ _⟩ fun _ _ h => .of_sb h.sb)
      fun _ => .bind ⟨.modify fun _ => ⟨rfl, rfl⟩, .modify _⟩ fun _ => .ret _

theorem writeBackInodeDesc_roomy (h : m.Listed cfg.table P) (hr : m.RoomFor limit keep ino) (x : Nat) :
    (writeBackInodeDesc cfg x).Ends m (fun _ m' => m'.Listed cfg.table P ∧ m'.RoomFor limit keep ino)
      fun e _ => e.tooBig = false := by
  refine (((writeBackInodeDesc_ends cfg h x).and ((writeBackInodeDesc_spans cfg x).1.ends m)).and ((writeBackInodeDesc_spans cfg x).2 m)).mono
    (fun _ m' hm => ?_) fun _ _ he => he.2
  obtain ⟨⟨⟨hl, -, hb⟩, hs⟩, -⟩ := hm
  exact ⟨hl.weaken fun _ _ hx => hx.1, hb.roomFor hs hr⟩

theorem Stands.unique {s : TreeFs} {extents extents' : List Extent} {external external' : List Nat}
    (h : Stands s extents external) (h' : Stands s extents' external') :
    extents = extents' ∧ external = external' := by
  have hread := h.read.symm.trans h'.read
  cases hread
  exact ⟨rfl, rfl⟩

theorem truncateChunk_roomy {max : Option Nat} (h : m.Listed cfg.table P)
    (hr : m.RoomFor limit (keepBlocks newSize) ino) (hmax : ∀ l, max = some l → l = limit)
    (csumSeed : Option UInt32) (policy : DataForgetPolicy) :
    (onTree ino (truncateChunk cfg.geometry csumSeed policy newSize max)).Ends m
      (fun _ m' => m'.Listed cfg.table P ∧ m'.RoomFor limit (keepBlocks newSize) ino)
      fun e _ => e.tooBig = false := by
  cases hino : m.inodes ino with
  | none =>
    have hrun : onTree ino (truncateChunk cfg.geometry csumSeed policy newSize max) m = (.error staleInode, m) := by
      simp only [onTree, hino]
    rw [Op.Ends, hrun]
    rfl
  | some inode =>
    cases htree : inode.tree with
    | none =>
      have hrun : onTree ino (truncateChunk cfg.geometry csumSeed policy newSize max) m =
          (.error noBlockManager, m) := by
        simp only [onTree, hino, htree]
      rw [Op.Ends, hrun]
      rfl
    | some tree =>
      obtain ⟨extents, external, hplant, hroom⟩ := hr inode tree hino htree
      have hst := hplant.stands h.zoned.steady
      have hchunk := onTree_ends hino htree
        ((truncateChunk_restartable cfg.geometry csumSeed policy newSize).chunk _ _ _ max hst)
      refine ((truncateChunk_listed cfg h (kept_of_planted h.zoned.steady hino htree hplant) csumSeed policy
        newSize max).and hchunk).mono (fun r m' hm => ?_) fun e m' hm => ?_
      · obtain ⟨⟨hl, -, hk⟩, s, rfl, extents', ha⟩ := hm
        refine ⟨hl, fun inode' tree' hino' htree' => ?_⟩
        obtain ⟨extents2, external2, hst2, hloose⟩ := hk inode' tree' hino' htree'
        rw [setInode_self] at hino'
        cases hino'
        cases htree'
        obtain ⟨external', hst', -⟩ := ha.becomes
        obtain ⟨rfl, rfl⟩ := Stands.unique hst2 hst'
        refine ⟨extents2, external2, ⟨hst'.shaped, hst'.sound, hst'.ordered, hst'.owns, hloose, hst'.sectors⟩, ?_⟩
        rcases hroom with hzero | hle
        · exact .inl (Nat.le_zero.mp (hzero ▸ ha.nears.owing_le))
        · exact .inr (le_trans ha.need_le hle)
      · obtain ⟨-, s, -, he⟩ := hm
        refine Bool.eq_false_iff.mpr fun hbig => ?_
        obtain ⟨l, hl, hwork, hlt⟩ := he hbig
        rw [hmax l hl] at hlt
        rcases hroom with hzero | hle
        · exact hwork hzero
        · exact absurd hle (not_le.mpr hlt)

section

variable (hH : H.Modest) (h : m.Listed cfg.table P) (hr : m.RoomFor (maxCredits cfg.geometry) (keepBlocks newSize) ino)

include hH h hr

theorem truncateChunks_modest (rounds : Nat) :
    (truncateChunks H cfg ino newSize rounds).Ends m (fun _ _ => True) fun e _ => e.tooBig = false := by
  induction rounds generalizing m with
  | zero => exact .fail rfl
  | succ rounds ih =>
    refine ((readInode_ends m ino).and (readInode_modest ino m)).bindOr (fun _ _ h => h.2)
      fun inode m1 hm => ?_
    obtain ⟨⟨rfl, -⟩, -⟩ := hm
    refine .bind_get ((truncateChunk_roomy cfg h hr (fun l hl => ?_) _ _).bind fun chunk m2 h2 => ?_)
    · obtain ⟨-, -, rfl⟩ := Option.map_eq_some_iff.mp hl
      rfl
    split
    · exact .ret trivial
    refine (writeBackInodeDesc_roomy cfg h2.1 h2.2 ino).bind fun _ m3 h3 => ?_
    refine Op.Ends.bind (Q := fun _ m4 => m4.Listed cfg.table P ∧
      m4.RoomFor (maxCredits cfg.geometry) (keepBlocks newSize) ino) (.zoom (((H.restart_ends m3.fs _
      h3.1.zoned.open).and (hH.restart _ m3.fs)).mono (fun _ fs4 h4 => ?_) fun _ fs4 h4 => h4.2))
      fun _ m4 h4 => ih h4.1 h4.2
    obtain ⟨⟨ht, ho⟩, -⟩ := h4
    exact ⟨Stays.listed (h3.1.stays.turns ht rfl) ho,
      Bears.roomFor (.of_inodes (.turns h3.1.zoned ht ho) rfl) (.of_sb ht.sb) h3.2⟩

theorem finishTruncate_modest (rounds : Nat) :
    (finishTruncate H cfg ino newSize rounds).Ends m (fun _ _ => True) fun e _ => e.tooBig = false := by
  refine (truncateChunks_modest H cfg hH h hr rounds).bind fun _ m1 _ => ?_
  exact Raises.bind (orphanDel_spares (F := fun _ => True) (S := fun _ => True) cfg ino).2 (fun _ => (writeBackInodeDesc_spans cfg ino).2) m1

theorem spine_modest (hino : 0 < ino ∧ ino < 2 ^ 32) (rounds : Nat) :
    (do
      let _ ← orphanAdd cfg ino
      writeBackInodeDesc cfg ino
      registerOrderedData ino newSize
      finishTruncate H cfg ino newSize rounds : MountOp Unit).Ends m (fun _ _ => True)
      fun e _ => e.tooBig = false := by
  refine ((((orphanAdd_ends cfg h hino).and ((orphanAdd_spans cfg ino).1.ends m)).and
    ((orphanAdd_spans cfg ino).2 m)).mono (fun _ _ h => h.1) fun _ _ h => h.2).bind fun _ m1 h1 => ?_
  obtain ⟨⟨h1, hinodes, hbears, -⟩, hspans⟩ := h1
  have hr1 := Bears.roomFor (.of_inodes hbears hinodes) hspans hr
  refine (writeBackInodeDesc_roomy cfg h1 hr1 ino).bind fun _ m2 h2 => ?_
  have hreg := Fs.registerOrderedData_evolves h2.1.zoned.steady.ready ino newSize
  rw [registerOrderedData, onFs]
  refine Op.Ends.bind (Q := fun _ m3 => m3.Listed cfg.table (fun x => P x ∨ x = ino ∧ ino ∉ m.chain) ∧
    m3.RoomFor (maxCredits cfg.geometry) (keepBlocks newSize) ino)
    (.zoom (hreg.mono (fun _ fs3 hev => ?_) fun _ _ hf => hf.elim)) fun _ m3 h3 => ?_
  · exact ⟨h2.1.aside hev.aside_same rfl,
      Bears.roomFor (.of_inodes (.evolves h2.1.zoned hev) rfl) (.of_sb hev.sb) h2.2⟩
  · exact finishTruncate_modest H cfg hH h3.1 h3.2 rounds

end

end Loop

section Resize

variable {P : Nat → Prop} {m m' : Mount} {ino newSize oldSize limit keep : Nat} {inode : Inode}
  {tree : ExtentTree} (H : Handles) (cfg : Config) {C : Mount → Prop}

def Grown (m : Mount) (ino : Nat) : Prop :=
  ∀ inode tree, m.inodes ino = some inode → inode.tree = some tree →
    ∃ extents external, Planted m.fs tree extents external

theorem Roomy.turns (h : Roomy limit keep fs tree) (ht : fs.Turns fs') :
    Roomy limit keep fs' tree := by
  obtain ⟨extents, external, hp, hroom⟩ := h
  refine ⟨extents, external, ⟨hp.shaped.congr fun b _ => ht.image b, hp.sound, hp.ordered, ?_, ?_, hp.sectors⟩, ?_⟩
  · obtain ⟨hnodup, hcontains, hused, hsystem⟩ := hp.owns
    exact ⟨hnodup, by rwa [ht.layout], by rwa [ht.blockUsed], by rwa [ht.layout]⟩
  · intro b hb
    rw [Fs.Guarded, ht.layout]
    exact hp.loose b hb
  · rwa [truncateNeed_spans (.of_sb ht.sb)]

theorem setInode_same (hino : m.inodes ino = some inode) (htree : inode.tree = some tree) :
    m.setInode ino { inode with tree := some tree } = m := by
  rw [← htree, setInode, ← hino, Function.update_eq_self]

theorem shrinkGate_ends (hroot : m.Grown ino) (newSize oldSize : Nat) :
    (shrinkGate cfg ino newSize oldSize).Ends m
      (fun chunked m' => m' = m ∧ (chunked = true → blocksOf newSize < 2 ^ 32 ∧ m.fs.journal.isSome = true ∧
        m.RoomFor (maxCredits cfg.geometry) (keepBlocks newSize) ino))
      fun _ m' => m' = m := by
  unfold shrinkGate
  split
  · exact .ret ⟨rfl, nofun⟩
  refine (readInode_ends m ino).bindOr (fun _ _ h => h) fun inode m1 hm => ?_
  obtain ⟨rfl, hino⟩ := hm
  refine .bind_get ?_
  split
  next max tree hmax htree =>
    obtain ⟨j, hj, rfl⟩ := Option.map_eq_some_iff.mp hmax
    obtain ⟨extents, external, hplant⟩ := hroot inode tree hino htree
    refine (onTree_ends hino htree (planShrink_ends hplant.shaped hplant.sound newSize
      (maxCredits cfg.geometry))).bindOr (fun e m2 hm => ?_) fun plan m2 hm => ?_
    · obtain ⟨s, rfl, rfl⟩ := hm
      exact setInode_same hino htree
    obtain ⟨s, rfl, rfl, hfit, hfloor⟩ := hm
    rw [setInode_same hino htree]
    split
    · exact .fail rfl
    next hno =>
      refine .ret ⟨rfl, fun hchunked => ⟨hfit, by rw [hj]; rfl, fun inode' tree' hino' htree' => ?_⟩⟩
      rw [hino] at hino'
      cases hino'
      rw [htree] at htree'
      cases htree'
      refine ⟨extents, external, hplant, ?_⟩
      rw [keepBlocks_eq hfit]
      rcases Nat.eq_zero_or_pos (owing (blocksOf newSize) (2 ^ 32) extents) with hzero | hpos
      · exact .inl hzero
      · refine .inr (not_lt.mp fun hlt => hno ⟨of_decide_eq_true hchunked, hfloor.mpr ⟨?_, hlt⟩⟩)
        exact Nat.pos_iff_ne_zero.mp hpos
  · exact .ret ⟨rfl, nofun⟩

theorem during_ends (hH : H.Modest) {C : Prop} (hrest : H.Rested m.fs) {op : MountOp Unit}
    (hop : ∀ m1 : Mount, m1.inodes = m.inodes → m1.chain = m.chain → m.fs.Turns m1.fs → m1.fs.Open →
      op.Ends m1 (fun _ _ => True) fun e m' => e.tooBig = true → C ∧ m' = m1) (credits : Nat) :
    (during H credits op).Ends m (fun _ _ => True)
      fun e m' => e.tooBig = true → C ∧ m'.inodes = m.inodes ∧ m.fs.Turns m'.fs := by
  refine Op.Ends.bind (Q := fun _ m1 => m1.inodes = m.inodes ∧ m1.chain = m.chain ∧ m.fs.Turns m1.fs ∧
    m1.fs.Open) (.zoom (((H.begin_ends m.fs credits hrest).and (hH.beginOp credits m.fs)).mono
    (fun _ _ h => ⟨rfl, rfl, h.1⟩) fun _ _ h => tooBig_absurd h.2)) fun _ m1 h1 => ?_
  obtain ⟨hinodes, hchain, hturns, hopen⟩ := h1
  refine Op.Ends.bind (Q := fun res m2 => ∀ e, res = .error e → e.tooBig = true → C ∧ m2 = m1)
    (.attempt ((hop m1 hinodes hchain hturns hopen).mono (fun _ _ _ e he => ?_) fun e m2 he e' heq => ?_))
    fun res m2 hres => ?_
  · cases he
  · cases heq
    exact he
  have hclose : (onFs H.close).Ends m1 (fun _ m3 => m3.inodes = m1.inodes ∧ m1.fs.Turns m3.fs) fun _ _ => True :=
    .zoom ((H.close_ends m1.fs (H.open_held _ hopen)).mono (fun _ _ h => ⟨rfl, h.1⟩) fun _ _ _ => trivial)
  refine Op.Ends.bind (Q := fun _ m3 => ∀ e, res = .error e → e.tooBig = true →
    C ∧ m3.inodes = m.inodes ∧ m.fs.Turns m3.fs) (.intro (fun _ m3 hrun e he hbig => ?_) fun e m3 hrun => ?_)
    fun _ m3 h3 => .ofExcept (fun _ _ => trivial) h3
  · obtain ⟨hC, rfl⟩ := hres e he hbig
    obtain ⟨hinodes3, hturns3⟩ := hclose.of_ok hrun
    exact ⟨hC, hinodes3.trans hinodes, hturns.trans hturns3⟩
  · exact tooBig_absurd (Raises.of_error (.zoom hH.close) hrun)

theorem ReadOnly.quiet {op : MountOp α} (h : ReadOnly op) (m : Mount) (hm : C m) :
    op.Ends m (fun _ m' => m' = m) fun e m' => e.tooBig = true → C m' :=
  (h.ends m).mono (fun _ _ h => h) fun _ _ h _ => h ▸ hm

theorem readInode_quiet (ino : Nat) (m : Mount) (hm : C m) :
    (readInode ino).Ends m (fun inode m' => m' = m ∧ m.inodes ino = some inode)
      fun e m' => e.tooBig = true → C m' :=
  (readInode_ends m ino).mono (fun _ _ h => h) fun _ _ h _ => h ▸ hm

theorem expand_ends (ino newSize oldSize : Nat) (m : Mount) (hgrow : oldSize < newSize) :
    (expand ino newSize oldSize).Ends m (fun _ _ => True) fun e m' => e.tooBig = true → m' = m := by
  unfold expand ensureSizeWithinLimit
  refine Op.Ends.bind (Q := fun _ m1 => newSize ≤ (2 ^ 32 - 1) * 4096) ?_ fun _ m1 hle => ?_
  · refine (readInode_quiet ino m (C := (· = m)) rfl).bind fun inode m1 hm => ?_
    have hmax : (if inode.desc.type = .file then (2 ^ 32 - 1) * 4096 else 2 ^ 32 - 1) ≤ (2 ^ 32 - 1) * 4096 := by
      split <;> decide
    rw [hm.1]
    rcases lt_or_ge (if inode.desc.type = .file then (2 ^ 32 - 1) * 4096 else 2 ^ 32 - 1) newSize with hlt | hle
    · exact if_pos hlt ▸ .fail fun _ => rfl
    · exact if_neg (not_lt.mpr hle) ▸ .ret (le_trans hle hmax)
  · refine .bind_modify (Modest.silent (resizePageCache_modest ino ?_) _)
    rw [min_eq_right (le_of_lt hgrow), Nat.div_lt_iff_lt_mul (by decide)]
    omega

theorem shrink_ends (ino newSize oldSize : Nat) (m : Mount) :
    (shrink cfg ino newSize oldSize).Ends m (fun _ _ => True) fun e m' => e.tooBig = true → m' = m := by
  refine Op.Ends.bind (Q := fun _ _ => True) ?_ fun _ m1 _ =>
    Modest.silent (truncateToByteLen_modest cfg ino newSize) m1
  exact (ReadOnly.quiet (resizePageCache_readOnly ino newSize oldSize) m (C := (· = m)) rfl).bind fun _ _ _ =>
    .modify trivial

theorem resizeInner_ends (ino newSize : Nat) (now : Duration) (m : Mount) :
    (resizeInner cfg ino newSize now).Ends m (fun _ _ => True) fun e m' => e.tooBig = true → m' = m := by
  refine (readInode_quiet ino m (C := (· = m)) rfl).bind fun inode m1 hm => ?_
  obtain ⟨rfl, -⟩ := hm
  split
  · exact .ret trivial
  refine Op.Ends.bind (Q := fun _ _ => True) ?_ fun _ m2 _ => .modify trivial
  unfold shrinkOrExpand
  split
  · exact shrink_ends cfg ino newSize _ m1
  · exact expand_ends ino newSize _ m1 (by omega)

theorem resizeOnce_ends (ino newSize oldSize : Nat) (now : Duration) (m : Mount) :
    (resizeOnce cfg ino newSize oldSize now).Ends m (fun _ _ => True) fun e m' => e.tooBig = true → m' = m := by
  refine (resizeInner_ends cfg ino newSize now m).bind fun _ m1 _ => .bind_get (Modest.silent ?_ m1)
  exact .bind (.when (writeBackInodeDesc_spans cfg ino).2) fun _ => .when (registerOrderedData_modest ino newSize)

theorem shrinkInChunks_ends (hH : H.Modest) (hs : m.Stays cfg.table P) (hrest : H.Rested m.fs)
    (hino : 0 < ino ∧ ino < 2 ^ 32) (hfit : blocksOf newSize < 2 ^ 32)
    (hr : m.RoomFor (maxCredits cfg.geometry) (keepBlocks newSize) ino) (oldSize rounds : Nat) :
    (shrinkInChunks H cfg ino newSize oldSize rounds).Ends m (fun _ _ => True)
      fun e m' => e.tooBig = true → m' = m := by
  refine Op.Ends.bind (Q := fun _ m1 => m1 = m.mapInode ino (Inode.editDesc (InodeDesc.setSize newSize))) ?_
    fun _ m1 hm => ?_
  · refine (ReadOnly.quiet (resizePageCache_readOnly ino newSize oldSize) m (C := (· = m)) rfl).bind
      fun _ m1 hm => .modify ?_
    rw [hm]
  rw [if_neg (not_le.mpr hfit)]
  have hread {α : Type} {op : MountOp α} (h : ReadOnly op) (hmod : Modest op) : op.Ends m1 (fun _ m' => m' = m1)
      fun e m' => e.tooBig = true → m' = m :=
    ((h.ends m1).and (hmod m1)).mono (fun _ _ h => h.1) fun _ _ h => tooBig_absurd h.2
  refine (hread (needTree_readOnly ino) (needTree_modest ino)).bind fun _ m2 h2 => ?_
  rw [h2]
  refine (hread (readInode_readOnly ino) (readInode_modest ino)).bind fun inode m3 h3 => ?_
  rw [h3]
  have hfs : m1.fs = m.fs := by rw [hm]; rfl
  refine .bind_get ((during_ends H hH (C := False) (by rwa [hfs]) (fun m4 hinodes hchain hturns hopen => ?_) _).mono
    (fun _ _ h => h) fun _ _ h hbig => (h hbig).1.elim)
  have hstays : m1.Stays cfg.table P := by
    refine hs.turns ?_ (by rw [hm]; rfl)
    rw [hfs]
    exact ⟨rfl, rfl, fun _ => rfl⟩
  have hr4 : m4.RoomFor (maxCredits cfg.geometry) (keepBlocks newSize) ino := by
    intro inode' tree' hino' htree'
    rw [hinodes, hm, mapInode_self, Option.map_eq_some_iff] at hino'
    obtain ⟨inode, hinode, rfl⟩ := hino'
    rw [hfs] at hturns
    exact (hr inode tree' hinode htree').turns hturns
  exact (spine_modest H cfg hH (Stays.listed (hstays.turns hturns hchain) hopen) hr4 hino rounds).mono
    (fun _ _ h => h) fun _ _ he => tooBig_absurd he

theorem resize_ends (hH : H.Modest) (hs : m.Stays cfg.table P) (hino : 0 < ino ∧ ino < 2 ^ 32)
    (hrest : m.fs.journal.isSome = true → H.Rested m.fs) (hroot : m.Grown ino) (newSize rounds : Nat)
    (now : Duration) :
    (resize H cfg ino newSize rounds now).Ends m (fun _ _ => True)
      fun e m' => e.tooBig = true → m'.inodes = m.inodes ∧ m.fs.Turns m'.fs := by
  have hsame : ∀ {m' : Mount}, m' = m → m'.inodes = m.inodes ∧ m.fs.Turns m'.fs := by
    rintro m' rfl
    exact ⟨rfl, rfl, rfl, fun _ => rfl⟩
  refine (readInode_quiet ino m (C := fun m' => m'.inodes = m.inodes ∧ m.fs.Turns m'.fs) (hsame rfl)).bind
    fun inode m1 hm => ?_
  obtain ⟨rfl, -⟩ := hm
  dsimp only
  split
  · exact .fail fun _ => hsame rfl
  refine Op.Ends.bind (Q := fun chunked m' => m' = m1 ∧ (chunked = true → blocksOf newSize < 2 ^ 32 ∧
    m1.fs.journal.isSome = true ∧ m1.RoomFor (maxCredits cfg.geometry) (keepBlocks newSize) ino))
    ((shrinkGate_ends cfg hroot newSize _).mono (fun _ _ h => h) fun _ _ h _ => hsame h) fun chunked m2 h2 => ?_
  obtain ⟨rfl, hchunked⟩ := h2
  cases chunked with
  | true =>
    obtain ⟨hfit, hjournal, hr⟩ := hchunked rfl
    exact (shrinkInChunks_ends H cfg hH hs (hrest hjournal) hino hfit hr _ rounds).mono (fun _ _ h => h)
      fun _ _ h hbig => hsame (h hbig)
  | false =>
    refine .bind_get (.bind_get ?_)
    split
    next hjournal =>
      refine (during_ends H hH (C := True) (hrest hjournal) (fun m3 _ _ _ _ => ?_) _).mono (fun _ _ h => h)
        fun _ _ h hbig => (h hbig).2
      exact (resizeOnce_ends cfg ino newSize _ now m3).mono (fun _ _ h => h) fun _ _ h hbig => ⟨trivial, h hbig⟩
    · exact (resizeOnce_ends cfg ino newSize _ now m2).mono (fun _ _ h => h) fun _ _ h hbig => hsame (h hbig)

end Resize

section Exact

variable (H : Handles) (cfg : Config)

def stripPlan (newSize maxCredits : Nat) : ShrinkPlan :=
  let freed := strip.countP fun e => blocksOf newSize < e.block + e.len
  ⟨stripFile.fs.wholeTruncateCreditBound 0 freed tight.tagLayout.revokeEntriesPerBlock,
    0 < freed && maxCredits < Fs.extentFreeCredits + stripFile.fs.truncateChunkCredits 0⟩

theorem planShrink_strip {newSize : Nat} (h : blocksOf newSize < 2 ^ 32) (maxCredits : Nat) :
    planShrink tight newSize maxCredits stripFile = (.ok (stripPlan newSize maxCredits), stripFile) := by
  unfold planShrink
  rw [if_neg (not_le.mpr h), Op.bind_ok stripFile_stands.flatten]
  rfl

theorem joined_modest : joined.Modest where
  beginOp _ := .modify _
  restart _ := .ret ()
  close := .modify _

def restingVolume : Mount :=
  let m := sampleMount 20 [] (fun _ => none) fun ino => if ino = 12 then some (sampleFile 1) else none
  { m with fs := { m.fs with handle := none } }

theorem restingVolume_stays : restingVolume.Stays sampleTable fun _ => False where
  moored := (sampleMount_moored 20 [] (fun _ => none) fun _ => none).turns ⟨rfl, rfl, fun _ => rfl⟩
  mirrors :=
    { nodup := List.nodup_nil
      range := fun _ hx => absurd hx List.not_mem_nil
      first := rfl
      head := by
        have hhead : restingVolume.fs.headOrphan = some 0 := by decide +kernel
        exact hhead
      links := trivial }

theorem restingVolume_grown : restingVolume.Grown 12 := by
  intro inode tree hino htree
  cases hino
  cases htree
  refine ⟨[], [], ?_, ⟨nofun, .nil⟩, .nil, ⟨.nil, nofun, nofun, nofun⟩, nofun, rfl⟩
  exact .inline (by decide) (holds_inlineLeafRoot nofun (by decide))

end Exact

end Mount

end Ext4
