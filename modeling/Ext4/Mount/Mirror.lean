import Ext4.Base.Frame
import Ext4.Base.Threaded
import Ext4.Mount.Namespace
import Ext4.Mount.Reclaim

namespace Ext4

open Bytes SuperBlock List Option OrphanChain

variable {g : JournalGeometry}

namespace Fs

variable {t : InodeTable} {fs fs' : Fs} {T : Finset Nat}

def nextOrphan (t : InodeTable) (fs : Fs) (ino : Nat) : Option Nat :=
  (fs.slotImage t ino).map fun raw => rawInode.num raw .dtime

def orphanCode (next : Option Nat) : Nat := next.getD 0

def orphanCursor (n : Nat) : Option Nat := if n = 0 then none else some n

def orphanList (t : InodeTable) (fs : Fs) (fuel : Nat) : Option (List Nat) :=
  fs.headOrphan.bind fun head => List.follow orphanCursor (fs.nextOrphan t) fuel (orphanCursor head)

theorem Turns.layout (h : fs.Turns fs') : fs'.layout = fs.layout := by
  simp only [Fs.layout, h.sb, h.groups]

theorem Turns.blockUsed (h : fs.Turns fs') : fs'.blockUsed = fs.blockUsed := by
  funext b
  simp only [Fs.blockUsed, groupOf, h.sb, h.groups]

theorem Zoned.of_same (hz : fs.Zoned t) (hl : fs'.layout = fs.layout)
    (hu : fs'.blockUsed = fs.blockUsed) (hr : fs'.Ready) (hlive : fs'.handle.isSome = true) :
    fs'.Zoned t where
  live := hlive
  steady :=
    { ready := hr
      wf := hl ▸ hz.steady.wf
      system b hb hc := by
        rw [hl] at hb hc
        rw [hu]
        exact hz.steady.system b hb hc
      narrow := hl ▸ hz.steady.narrow }
  tabled := hl ▸ hz.tabled
  contains b hb := by
    rw [hl] at hb ⊢
    exact hz.contains b hb
  tables b hb := by
    rw [hl] at hb
    rw [hu]
    exact hz.tables b hb

theorem Zoned.turns (hz : fs.Zoned t) (h : fs.Turns fs') (ho : fs'.Open) : fs'.Zoned t :=
  hz.of_same h.layout h.blockUsed ho.1 ho.2

theorem Zoned.evolves (hz : fs.Zoned t) {image : Nat → Option Block} (h : fs.Evolves fs' image T) : fs'.Zoned t :=
  hz.of_same h.layout h.blockUsed h.ready (h.mode.trans hz.live)

def withHead (fs : Fs) (head : Option Nat) : Fs := fs.setSb { fs.sb with lastOrphan := head }

theorem Zoned.withHead (hz : fs.Zoned t) (head : Option Nat) : (fs.withHead head).Zoned t where
  live := hz.live
  steady :=
    { ready := hz.steady.ready.of_same rfl rfl
      wf := by
        obtain ⟨⟩ := hz.steady.wf
        constructor <;> assumption
      system := hz.steady.system
      narrow := hz.steady.narrow }
  tabled := by
    obtain ⟨⟩ := hz.tabled
    constructor <;> assumption
  contains := hz.contains
  tables := hz.tables

theorem slotImage_withHead (t : InodeTable) (fs : Fs) (head : Option Nat) (ino : Nat) :
    (fs.withHead head).slotImage t ino = fs.slotImage t ino := rfl

theorem capturePatch_reads (hr : fs.Ready) (hlive : fs.handle.isSome = true) (b : Nat) (f : Block → Block) :
    (capturePatch g b f).Ends fs
      (fun _ fs' => fs.Evolves fs' (fs.patched b f) {b} ∧ ∃ block, fs.image b = some block)
      fun _ fs' => fs.Evolves fs' fs.image ∅ := by
  refine (getWriteAccess_ends hr b).bindOr (fun _ _ h => h.1) fun access fs1 h1 => ?_
  obtain ⟨h1, hg⟩ := h1
  have hread : ∃ block, fs.image b = some block := by
    rw [← h1.image b]
    cases hg with
    | inert _ hhandle =>
      have hmode := h1.mode
      rw [hhandle, hlive] at hmode
      cases hmode
    | captured hl haccess hcap => exact ne_none_iff_exists'.mp (Granted.readable
        (.captured hl haccess hcap) (by simp [WriteAccess.isLive, haccess]))
  refine (patch_ends h1.ready hg f).mono (fun _ fs2 h2 => ⟨?_, hread⟩) fun _ _ hf => hf.elim
  exact (h1.patch h2).weaken (Finset.union_empty _).subset

theorem createPatch_evolves (hr : fs.Ready) (b : Nat) (block : Block) :
    (do
      let access ← getCreateAccess g b
      patch access fun _ => block : FsOp Unit).Leaves fs fun fs' =>
        ∃ image T, fs.Evolves fs' image T ∧ ∀ x, x ≠ b → image x = fs.image x := by
  refine (getCreateAccess_ends hr b).bindOr (fun _ fs1 h1 => ?_) fun access fs1 h1 => ?_
  · obtain ⟨⟨v, hev⟩, -⟩ := h1
    exact ⟨_, _, hev, fun x hx => if_neg fun h => hx h.1⟩
  · obtain ⟨⟨v, hev⟩, hg⟩ := h1
    refine (patch_ends hev.ready hg fun _ => block).mono (fun _ fs2 h2 => ?_) fun _ _ hf => hf.elim
    refine ⟨_, _, hev.trans h2, fun x hx => ?_⟩
    rw [patched, overlay, if_neg fun h => hx h.1, hev.image, if_neg fun h => hx h.1]

theorem createPatch_skirts {b : Nat} (h : fs.Loose [b]) (block : Block) :
    fs.Skirts t (do
      let access ← getCreateAccess g b
      patch access fun _ => block : FsOp Unit) := by
  intro hz
  have hhome : ∀ fs', (∃ image T, fs.Evolves fs' image T ∧ ∀ x, x ≠ b → image x = fs.image x) → fs.Aside fs' := by
    rintro fs' ⟨image, T, hev, hrest⟩
    refine hev.aside (fun x hx => hrest x ?_) (congrArg (Option.map SuperBlock.readHead) (hrest _ ?_))
    · rintro rfl
      exact (h x List.mem_cons_self).2 (.inr hx)
    · exact fun hb => h.not_superblock List.mem_cons_self hb.symm
  exact (createPatch_evolves hz.steady.ready b block).mono (fun _ => hhome) fun _ => hhome

theorem registerOrderedData_evolves (hr : fs.Ready) (ino len : Nat) :
    (underHandle () fun h st => keepOnError h st (st.registerOrderedData h.tid ino len)).Ends fs
      (fun _ fs' => fs.Evolves fs' fs.image ∅) fun _ _ => False := by
  cases hr with
  | plain hn hj =>
    simp only [Op.Ends, underHandle_plain _ _ hn]
    exact .refl (.plain hn hj)
  | @live h j txn hl =>
    have ht : Transfer txn (txn.registerOrderedData ino len) h h := .of_same h rfl rfl rfl
    obtain ⟨hseats, hactive⟩ := hl.serves.seat ht.tid
    have hs : (j.state.setActive (txn.registerOrderedData ino len)).Serves
        (txn.registerOrderedData ino len) h := ⟨hseats, hactive, hl.serves.tid⟩
    simp only [Op.Ends, hl.underHandle, JournalState.registerOrderedData, hl.serves.activeTxn, keepOnError]
    refine hl.evolves hs ht (fun x => ?_) (fun x hx => hx) (.inl le_rfl)
    rw [(hl.resume hs ht).image, hl.image]
    simp only [Journal.withState, JournalState.setActive_uncheckpointed, resumed]
    rfl

variable {slot : InodeSlot} {f : Block → Block} {ino ino' : Nat}

section

variable (hz : fs.Zoned t) (hslot : fs.inodeSlot t ino = .ok slot) (hev : fs.Evolves fs' (fs.patched slot.bid f) {slot.bid})

include hz hslot hev

theorem nextOrphan_captured {n : Nat} (hread : ∃ block, fs.image slot.bid = some block)
    (hdtime : ∀ b, rawInode.num (RawInode.ofBlock (f b) slot.offset) .dtime = n) :
    fs'.nextOrphan t ino = some n := by
  obtain ⟨block, hblock⟩ := hread
  have hslot' : fs'.inodeSlot t ino = .ok slot := (inodeSlot_congr hev.layout ino).trans hslot
  rw [nextOrphan, slotImage_ok hslot', hev.image, patched, overlay, if_pos ⟨rfl, hz.live⟩, hblock]
  exact congrArg some (hdtime block)

theorem nextOrphan_apart (hframe : ∀ b i, i < slot.offset ∨ slot.offset + 256 ≤ i → byteAt (f b) i = byteAt b i)
    (hne : ino' ≠ ino) : fs'.nextOrphan t ino' = fs.nextOrphan t ino' := by
  refine congrArg _ (slotImage_patched hz.tabled hev.layout hslot ?_ (fun b hb => ?_) hframe hne)
  · rw [hev.image, patched, overlay, if_pos ⟨rfl, hz.live⟩]
  · rw [hev.image, patched, overlay, if_neg fun h => hb h.1]

theorem headKept_captured (h : fs.HeadKept) : fs'.HeadKept := by
  rw [HeadKept, headOrphan, hev.image, patched, overlay, if_neg, hev.sb]
  · exact h
  · rintro ⟨hbid, -⟩
    exact hz.tabled.system _ (inodeSlot_table hz.tabled hslot)
      (hbid ▸ Layout.superblockBid_mem _)

end

structure Bears (fs fs' : Fs) : Prop where
  steady : fs'.Steady
  contains : ∀ b, fs'.layout.Contains b ↔ fs.layout.Contains b
  system : ∀ b, b ∈ fs'.layout.systemBids ↔ b ∈ fs.layout.systemBids
  tables : ∀ b, fs'.layout.Tables b ↔ fs.layout.Tables b
  used : fs'.blockUsed = fs.blockUsed
  image : ∀ b, ¬fs.Guarded b → fs'.image b = fs.image b

namespace Bears

variable {fs'' : Fs} {bids : List Nat}

theorem guarded (h : fs.Bears fs') (b : Nat) : fs'.Guarded b ↔ fs.Guarded b :=
  or_congr (h.system b) (h.tables b)

theorem trans (h1 : fs.Bears fs') (h2 : fs'.Bears fs'') : fs.Bears fs'' where
  steady := h2.steady
  contains b := (h2.contains b).trans (h1.contains b)
  system b := (h2.system b).trans (h1.system b)
  tables b := (h2.tables b).trans (h1.tables b)
  used := h2.used.trans h1.used
  image b hb := (h2.image b (mt (h1.guarded b).mp hb)).trans (h1.image b hb)

theorem of_same (hs : fs'.Steady) (hl : fs'.layout = fs.layout) (hu : fs'.blockUsed = fs.blockUsed)
    (himage : ∀ b, ¬fs.Guarded b → fs'.image b = fs.image b) : fs.Bears fs' where
  steady := hs
  contains b := by rw [hl]
  system b := by rw [hl]
  tables b := by rw [hl]
  used := hu
  image := himage

theorem refl (hs : fs.Steady) : fs.Bears fs := .of_same hs rfl rfl fun _ _ => rfl

theorem evolves (hz : fs.Zoned t) (hev : fs.Evolves fs' fs.image T) : fs.Bears fs' :=
  .of_same (hz.evolves hev).steady hev.layout hev.blockUsed fun b _ => hev.image b

theorem captured (hz : fs.Zoned t) {b : Nat} (hb : fs.Guarded b) {T : Finset Nat}
    (hev : fs.Evolves fs' (fs.patched b f) T) : fs.Bears fs' := by
  refine .of_same (hz.evolves hev).steady hev.layout hev.blockUsed fun x hx => ?_
  rw [hev.image, patched, overlay, if_neg]
  rintro ⟨rfl, -⟩
  exact hx hb

theorem turns (hz : fs.Zoned t) (h : fs.Turns fs') (ho : fs'.Open) : fs.Bears fs' :=
  .of_same (hz.turns h ho).steady h.layout h.blockUsed fun b _ => h.image b

theorem withHead (hz : fs.Zoned t) (head : Option Nat) : fs.Bears (fs.withHead head) where
  steady := (hz.withHead head).steady
  contains _ := Iff.rfl
  system _ := Iff.rfl
  tables _ := Iff.rfl
  used := rfl
  image _ _ := rfl

theorem loose (h : fs.Bears fs') (hl : fs.Loose bids) : fs'.Loose bids := fun b hb =>
  ⟨(h.contains b).mpr (hl b hb).1, mt (h.guarded b).mp (hl b hb).2⟩

theorem owns (h : fs.Bears fs') (ho : fs.Owns bids) : fs'.Owns bids where
  nodup := ho.nodup
  contains b hb := (h.contains b).mpr (ho.contains b hb)
  used b hb := by
    rw [h.used]
    exact ho.used b hb
  system b hb := mt (h.system b).mp (ho.system b hb)

theorem stands (h : fs.Bears fs') {tree tree' : ExtentTree} {extents : List Extent} {external : List Nat}
    (hs : Stands ⟨tree, fs⟩ extents external) (hl : fs.Loose (dataBlocks extents ++ external))
    (hroot : tree'.root = tree.root) (hsectors : tree'.sectorCount = tree.sectorCount) :
    Stands ⟨tree', fs'⟩ extents external where
  steady := h.steady
  shaped := by
    refine hroot ▸ hs.shaped.congr fun b hb => h.image b ?_
    exact (hl b (mem_append_right _ hb)).2
  sound := hs.sound
  ordered := hs.ordered
  owns := h.owns hs.owns
  sectors := hsectors.trans hs.sectors

end Bears

theorem writeBackInodeDesc_captures (hz : fs.Zoned t) (chain : OrphanChain) (ino : Nat)
    (desc : InodeDesc) (root : Buffer 60) :
    (writeBackInodeDesc t g chain ino desc root).Ends fs
      (fun _ fs' => ∃ slot, fs.inodeSlot t ino = .ok slot ∧ (∃ block, fs.image slot.bid = some block) ∧
        fs.Evolves fs' (fs.patched slot.bid
          ((desc.capturedRaw t ino (chain.successorOf ino) root).intoBlock slot.offset)) {slot.bid})
      fun _ fs' => fs.Evolves fs' fs.image ∅ := by
  refine .bind_get ?_
  cases hslot : fs.inodeSlot t ino with
  | error e => exact .fail (.refl hz.steady.ready)
  | ok slot =>
    refine .bind_of_eq rfl ?_
    rw [if_pos hz.live]
    exact (capturePatch_reads hz.steady.ready hz.live _ _).mono
      (fun _ _ h => ⟨slot, rfl, h.2, h.1⟩) fun _ _ h => h

theorem journalPatchDtime_captures (hz : fs.Zoned t) (ino next : Nat) :
    (journalPatchDtime t g ino next).Ends fs
      (fun _ fs' => ∃ slot, fs.inodeSlot t ino = .ok slot ∧ (∃ block, fs.image slot.bid = some block) ∧
        fs.Evolves fs' (fs.patched slot.bid (patchDtime t ino slot next)) {slot.bid})
      fun _ fs' => fs.Evolves fs' fs.image ∅ := by
  refine .bind_get ?_
  cases hslot : fs.inodeSlot t ino with
  | error e => exact .fail (.refl hz.steady.ready)
  | ok slot =>
    refine .bind_of_eq rfl ?_
    exact (capturePatch_reads hz.steady.ready hz.live _ _).mono
      (fun _ _ h => ⟨slot, rfl, h.2, h.1⟩) fun _ _ h => h

end Fs

def ExtentTree.bones (tree : ExtentTree) : Buffer 60 × Nat := (tree.root, tree.sectorCount)

namespace OrphanChain

variable {chain pre post : OrphanChain} {ino pred : Nat} {x : Nat} {splice : Splice}

theorem successorOf_append (h : ino ∉ pre) :
    successorOf (pre ++ ino :: post) ino = some post.head? := by
  induction pre with
  | nil => simp [successorOf]
  | cons x pre ih =>
    obtain ⟨hx, hpre⟩ := not_or.mp (mt mem_cons.mpr h)
    change (if x = ino then _ else successorOf (pre ++ ino :: post) ino) = _
    rw [if_neg fun he => hx he.symm]
    exact ih hpre

theorem successorOf_none : successorOf chain ino = none ↔ ino ∉ chain := by
  induction chain with
  | nil => simp [successorOf]
  | cons x rest ih =>
    unfold successorOf
    split
    next he => simp [he]
    next hne =>
      rw [ih, mem_cons, not_or]
      exact ⟨fun h => ⟨fun he => hne he.symm, h⟩, fun h => h.2⟩

theorem spliceAfter_none (h : spliceAfter x chain ino = none) : ino ∉ chain := by
  induction chain generalizing x with
  | nil => exact not_mem_nil
  | cons y rest ih =>
    unfold spliceAfter at h
    split at h
    · cases h
    next hne => exact fun hmem => (mem_cons.mp hmem).elim (fun he => hne he.symm) (ih h)

theorem spliceFor_none (h : spliceFor chain ino = none) : ino ∉ chain := by
  cases chain with
  | nil => exact not_mem_nil
  | cons x rest =>
    unfold spliceFor at h
    dsimp only at h
    split at h
    · cases h
    next hne => exact fun hmem => (mem_cons.mp hmem).elim (fun he => hne he.symm) (spliceAfter_none h)

theorem spliceAfter_some (h : spliceAfter x chain ino = some splice) :
    ∃ pre pred post, x :: chain = pre ++ pred :: ino :: post ∧ splice = .middle pred post.head? := by
  induction chain generalizing x with
  | nil => cases h
  | cons y rest ih =>
    unfold spliceAfter at h
    split at h
    next he =>
      cases h
      exact ⟨[], x, rest, by rw [he]; rfl, rfl⟩
    next =>
      obtain ⟨pre, pred, post, heq, hs⟩ := ih h
      exact ⟨x :: pre, pred, post, by rw [heq]; rfl, hs⟩

theorem spliceFor_some (h : spliceFor chain ino = some splice) :
    (∃ post, chain = ino :: post ∧ splice = .head post.head?) ∨
      ∃ pre pred post, chain = pre ++ pred :: ino :: post ∧ splice = .middle pred post.head? := by
  cases chain with
  | nil => cases h
  | cons x rest =>
    unfold spliceFor at h
    dsimp only at h
    split at h
    next he =>
      cases h
      exact .inl ⟨rest, by rw [he], rfl⟩
    · exact .inr (spliceAfter_some h)

end OrphanChain

namespace Mount

open Fs

variable {post : List Nat}

structure Mirrors (t : InodeTable) (P : Nat → Prop) (m : Mount) : Prop where
  nodup : m.chain.Nodup
  range : ∀ ino ∈ m.chain, 0 < ino ∧ ino < 2 ^ 32
  first : m.fs.sb.lastOrphan = m.chain.head?
  head : m.fs.HeadKept
  links : m.chain.Threaded orphanCode (m.fs.nextOrphan t) P

variable {t : InodeTable} {P P' : Nat → Prop} {m m' : Mount} {ino : Nat}

theorem code_lt (h : ∀ x ∈ m.chain, 0 < x ∧ x < 2 ^ 32)
    (hsub : ∀ x ∈ post, x ∈ m.chain) : orphanCode post.head? % 256 ^ 4 = orphanCode post.head? := by
  cases post with
  | nil => rfl
  | cons x post => exact Nat.mod_eq_of_lt (h x (hsub x List.mem_cons_self)).2

section

variable (h : m.Mirrors t P)

include h

theorem Mirrors.orphanList_eq (hP : ∀ ino ∈ m.chain, ¬P ino) :
    m.fs.orphanList t m.chain.length = some m.chain := by
  have hhead : m.fs.headOrphan = some (orphanCode m.chain.head?) := by
    rw [h.head, h.first]
    exact congrArg some (code_lt h.range fun _ hx => hx)
  have hcursor : orphanCursor (orphanCode m.chain.head?) = m.chain.head? := by
    cases hchain : m.chain with
    | nil => rfl
    | cons x rest =>
      have hx := (h.range x (hchain ▸ List.mem_cons_self)).1
      exact if_neg (Nat.pos_iff_ne_zero.mp hx)
  rw [orphanList, hhead, bind_some, hcursor]
  refine List.Threaded.follow_eq (h.links.congr fun y hy _ => ⟨hP y hy, rfl⟩) rfl fun y hy => ?_
  exact if_neg (Nat.pos_iff_ne_zero.mp (h.range y hy).1)

theorem Mirrors.weaken (hP : ∀ ino ∈ m.chain, P ino → P' ino) : m.Mirrors t P' :=
  { h with links := h.links.congr fun y hy hn => ⟨fun hPy => hn (hP y hy hPy), rfl⟩ }

theorem Mirrors.frame (hchain : m'.chain = m.chain)
    (hfirst : m'.fs.sb.lastOrphan = m.fs.sb.lastOrphan) (hhead : m'.fs.HeadKept)
    (hnext : ∀ ino ∈ m.chain, m'.fs.nextOrphan t ino = m.fs.nextOrphan t ino) : m'.Mirrors t P where
  nodup := hchain ▸ h.nodup
  range := hchain ▸ h.range
  first := by rw [hchain, hfirst, h.first]
  head := hhead
  links := by
    rw [hchain]
    exact h.links.congr fun y hy hn => ⟨hn, hnext y hy⟩

theorem Mirrors.aside (ht : m.fs.layout.Tabled t) (ha : m.fs.Aside m'.fs)
    (hchain : m'.chain = m.chain) : m'.Mirrors t P :=
  h.frame hchain (lastOrphan_congr ha.layout) (ha.head h.head) fun ino _ =>
    congrArg _ (slotImage_congr ht ha.layout ha.tables ino)

theorem Mirrors.turns (ht : m.fs.layout.Tabled t) (ha : m.fs.Turns m'.fs)
    (hchain : m'.chain = m.chain) : m'.Mirrors t P := by
  refine h.frame hchain (by rw [ha.sb]) ?_ fun ino _ =>
    congrArg _ (slotImage_congr ht ha.layout (fun b _ => ha.image b) ino)
  rw [HeadKept, headOrphan, ha.image, ha.sb]
  exact h.head

end

structure Listed (t : InodeTable) (P : Nat → Prop) (m : Mount) : Prop where
  zoned : m.fs.Zoned t
  mirrors : m.Mirrors t P

theorem Listed.aside (h : m.Listed t P) (ha : m.fs.Aside m'.fs) (hchain : m'.chain = m.chain) :
    m'.Listed t P := ⟨ha.zoned h.zoned, h.mirrors.aside h.zoned.tabled ha hchain⟩

theorem Listed.memory (h : m.Listed t P) (hfs : m'.fs = m.fs) (hchain : m'.chain = m.chain) :
    m'.Listed t P := h.aside (by rw [hfs]; exact .refl h.zoned.steady.ready) hchain

theorem Listed.weaken (h : m.Listed t P) (hP : ∀ ino ∈ m.chain, P ino → P' ino) : m.Listed t P' :=
  ⟨h.zoned, h.mirrors.weaken hP⟩

def Kept (m : Mount) (ino : Nat) : Prop :=
  ∀ inode tree, m.inodes ino = some inode → inode.tree = some tree →
    ∃ extents external, Stands ⟨tree, m.fs⟩ extents external ∧
      m.fs.Loose (dataBlocks extents ++ external)

structure Bears (m m' : Mount) : Prop where
  fs : m.fs.Bears m'.fs
  trees : ∀ x inode', m'.inodes x = some inode' → ∃ inode, m.inodes x = some inode ∧
    inode'.tree.map ExtentTree.bones = inode.tree.map ExtentTree.bones

namespace Bears

variable {m'' : Mount}

theorem of_inodes (h : m.fs.Bears m'.fs) (hi : m'.inodes = m.inodes) : m.Bears m' :=
  ⟨h, fun _ inode' hx => ⟨inode', hi ▸ hx, rfl⟩⟩

theorem trans (h1 : m.Bears m') (h2 : m'.Bears m'') : m.Bears m'' where
  fs := h1.fs.trans h2.fs
  trees x inode'' hx := by
    obtain ⟨inode', hx', heq'⟩ := h2.trees x inode'' hx
    obtain ⟨inode, hx, heq⟩ := h1.trees x inode' hx'
    exact ⟨inode, hx, heq'.trans heq⟩

theorem update (hs : m.fs.Steady) (ino : Nat) {f : Inode → Inode}
    (hf : ∀ inode, (f inode).tree.map ExtentTree.bones = inode.tree.map ExtentTree.bones) :
    m.Bears (m.mapInode ino f) where
  fs := .refl hs
  trees x inode' hx := by
    rcases Decidable.eq_or_ne x ino with rfl | hne
    · rw [mapInode_self, map_eq_some_iff] at hx
      obtain ⟨inode, hx, rfl⟩ := hx
      exact ⟨inode, hx, hf inode⟩
    · rw [mapInode_of_ne m f hne] at hx
      exact ⟨inode', hx, rfl⟩

theorem kept (h : m.Bears m') (hk : m.Kept ino) : m'.Kept ino := by
  intro inode' tree' hx htree'
  obtain ⟨inode, hx, heq⟩ := h.trees ino inode' hx
  rw [htree', map_some] at heq
  obtain ⟨tree, htree, hbones⟩ := map_eq_some_iff.mp heq.symm
  obtain ⟨extents, external, hs, hl⟩ := hk inode tree hx htree
  obtain ⟨hroot, hsectors⟩ := Prod.mk.injEq .. ▸ hbones
  exact ⟨extents, external, h.fs.stands hs hl hroot.symm hsectors.symm, h.fs.loose hl⟩

end Bears

section Primitives

variable (cfg : Config) {fs1 : Fs} {slot : InodeSlot}

theorem readInode_ends (m : Mount) (ino : Nat) :
    (readInode ino).Ends m (fun inode m' => m' = m ∧ m.inodes ino = some inode) fun _ m' => m' = m := by
  refine .bind_get ?_
  cases hino : m.inodes ino with
  | none => exact .fail rfl
  | some inode => exact .ret ⟨rfl, rfl⟩

theorem readInode_ok {inode : Inode} (h : m.inodes ino = some inode) : readInode ino m = (.ok inode, m) := by
  rw [readInode, Op.get_bind, h]
  rfl

theorem head_moved {head : Option Nat} {chain : OrphanChain} (h : m.Listed t P)
    (hev : m.fs.Evolves fs1 (m.fs.patched superblockBid (m.fs.sb.patchInto head)) {superblockBid})
    (hread : ∃ block, m.fs.image superblockBid = some block)
    (hfs : m'.fs = fs1.withHead head) (hchain : m'.chain = chain) (hhead : head = chain.head?)
    (hnodup : chain.Nodup) (hrange : ∀ ino ∈ chain, 0 < ino ∧ ino < 2 ^ 32)
    (hlinks : chain.Threaded orphanCode (m.fs.nextOrphan t) P') : m'.Listed t P' := by
  obtain ⟨block, hblock⟩ := hread
  have hz1 := h.zoned.evolves hev
  have himage : fs1.image superblockBid = some (m.fs.sb.patchInto head block) := by
    rw [hev.image, patched, overlay, if_pos ⟨rfl, h.zoned.live⟩, hblock, map_some]
  have htables : ∀ b, m.fs.layout.Tables b → fs1.image b = m.fs.image b := fun b hb => by
    rw [hev.image, patched, overlay, if_neg]
    rintro ⟨rfl, -⟩
    exact h.zoned.tabled.system _ hb (Layout.superblockBid_mem _)
  refine ⟨hfs ▸ hz1.withHead head, hchain ▸ hnodup, hchain ▸ hrange, ?_, ?_, ?_⟩
  · rw [hfs, hchain, ← hhead]
    rfl
  · have hread : (fs1.withHead head).headOrphan = some (head.getD 0 % 256 ^ 4) := by
      change (fs1.image superblockBid).map SuperBlock.readHead = _
      rw [himage]
      exact congrArg some (readHead_patchInto _ _ _)
    rw [HeadKept, hfs, hread]
    rfl
  · rw [hfs, hchain]
    refine hlinks.congr fun y _ hn => ⟨hn, ?_⟩
    exact congrArg (Option.map fun raw => rawInode.num raw .dtime)
      ((slotImage_withHead t fs1 head y).trans (slotImage_congr h.zoned.tabled hev.layout htables y))

theorem orphanAdd_ends (h : m.Listed cfg.table P) (hino : 0 < ino ∧ ino < 2 ^ 32) :
    (orphanAdd cfg ino).Ends m
      (fun _ m' => m'.Listed cfg.table (fun x => P x ∨ x = ino ∧ ino ∉ m.chain) ∧
        m'.inodes = m.inodes ∧ m.fs.Bears m'.fs ∧ ino ∈ m'.chain)
      fun _ m' => m'.Listed cfg.table P ∧ m'.chain = m.chain := by
  refine .bind_get ?_
  have hsome : m.fs.handle.isNone = false := by
    rw [Option.isNone_eq_false_iff]
    exact h.zoned.live
  rw [if_neg (by simp [hsome])]
  cases hsucc : m.chain.successorOf ino with
  | some next =>
    have hmem : ino ∈ m.chain := by
      by_contra hno
      rw [successorOf_none.mpr hno] at hsucc
      cases hsucc
    exact .ret ⟨h.weaken fun x _ hx => .inl hx, rfl, .refl h.zoned.steady, hmem⟩
  | none =>
    have hnot := successorOf_none.mp hsucc
    refine Op.Ends.bind (Q := fun _ m1 => ∃ fs1, m1 = { m with fs := fs1 } ∧ m.fs.Evolves fs1
        (m.fs.patched superblockBid (m.fs.sb.patchInto (some ino))) {superblockBid} ∧
      ∃ block, m.fs.image superblockBid = some block) ?_ fun _ m1 h1 => ?_
    · refine .zoom ((capturePatch_reads h.zoned.steady.ready h.zoned.live _ _).mono
        (fun _ fs1 h1 => ⟨fs1, rfl, h1⟩) fun _ fs1 h1 => ⟨h.aside h1.aside_same rfl, rfl⟩)
    · obtain ⟨fs1, rfl, hev, hread⟩ := h1
      have hbears := (Fs.Bears.captured h.zoned (.inl (Layout.superblockBid_mem _)) hev).trans
        (.withHead (h.zoned.evolves hev) (some ino))
      refine .bind_modify (.ret ⟨?_, rfl, hbears, List.mem_cons_self⟩)
      refine head_moved h hev hread ?_ rfl rfl
        (nodup_cons.mpr ⟨hnot, h.mirrors.nodup⟩) (fun x hx => ?_) ?_
      · rfl
      · rcases mem_cons.mp hx with rfl | hx
        · exact hino
        · exact h.mirrors.range x hx
      · exact ⟨fun hn => absurd (.inr ⟨rfl, hnot⟩) hn,
          h.mirrors.links.congr fun y _ hn => ⟨fun hy => hn (.inl hy), rfl⟩⟩

theorem Listed.written {desc : InodeDesc} {root : Buffer 60} (h : m.Listed t P)
    (hslot : m.fs.inodeSlot t ino = .ok slot) (hread : ∃ block, m.fs.image slot.bid = some block)
    (hev : m.fs.Evolves fs1 (m.fs.patched slot.bid
      ((desc.capturedRaw t ino (m.chain.successorOf ino) root).intoBlock slot.offset)) {slot.bid})
    (hfs : m'.fs = fs1) (hchain : m'.chain = m.chain) : m'.Listed t fun x => P x ∧ x ≠ ino := by
  have hz := h.zoned
  refine ⟨hfs ▸ hz.evolves hev, hchain ▸ h.mirrors.nodup, hchain ▸ h.mirrors.range, ?_,
    hfs ▸ headKept_captured hz hslot hev h.mirrors.head, ?_⟩
  · rw [hfs, hchain, hev.sb, h.mirrors.first]
  · rw [hfs, hchain]
    refine h.mirrors.links.settle h.mirrors.nodup (fun pre post hl => ?_) fun y _ hne =>
      nextOrphan_apart hz hslot hev (fun b i hi => RawInode.byteAt_intoBlock _ b hi) hne
    have hnodup := h.mirrors.nodup
    rw [hl] at hnodup
    have hnot : ino ∉ pre := fun hin => (nodup_append.mp hnodup).2.2 ino hin ino List.mem_cons_self rfl
    have hsucc : m.chain.successorOf ino = some post.head? := by
      rw [hl]
      exact successorOf_append hnot
    refine nextOrphan_captured hz hslot hev hread fun b => ?_
    rw [RawInode.ofBlock_intoBlock _ _ (inodeSlot_fits hslot), hsucc, InodeDesc.dtime_capturedRaw_listed]
    exact code_lt h.mirrors.range fun x hx => by
      rw [hl]
      exact mem_append_right _ (mem_cons_of_mem _ hx)

def Clean (m : Mount) (ino : Nat) : Prop := ∃ inode, m.inodes ino = some inode ∧ inode.isDirty = false

theorem writeBackInodeDesc_ends (h : m.Listed cfg.table P) (ino : Nat) :
    (writeBackInodeDesc cfg ino).Ends m
      (fun _ m' => m'.Listed cfg.table (fun x => P x ∧ (x = ino → m.Clean ino)) ∧ m'.chain = m.chain ∧ m.Bears m')
      fun _ m' => m'.Listed cfg.table P ∧ m'.chain = m.chain := by
  refine (readInode_ends m ino).bind_same (fun _ => ⟨h, rfl⟩) fun inode hino => ?_
  split
  next hclean =>
    exact .ret ⟨h.weaken fun x _ hx => ⟨hx, fun _ => ⟨inode, hino, hclean⟩⟩, rfl,
      .of_inodes (.refl h.zoned.steady) rfl⟩
  refine .bind_modify ?_
  refine .bind_of_eq (readInode_ok ((mapInode_self _ _ _).trans (by rw [hino]; rfl))) (.bind_get ?_)
  refine Op.Ends.bind (Q := fun _ m2 => ∃ fs2 slot desc root, m2 = { m.mapInode ino
      (Inode.editDesc fun desc => { desc with sectorCount := inode.sectorCount }) with fs := fs2 } ∧
      m.fs.inodeSlot cfg.table ino = .ok slot ∧ (∃ block, m.fs.image slot.bid = some block) ∧
      m.fs.Evolves fs2 (m.fs.patched slot.bid ((InodeDesc.capturedRaw cfg.table ino
        (m.chain.successorOf ino) desc root).intoBlock slot.offset)) {slot.bid})
    (.zoom ((writeBackInodeDesc_captures h.zoned _ _ _ _).mono (fun _ fs2 h2 => ?_) fun _ fs2 h2 => ?_))
    fun _ m2 h2 => ?_
  · obtain ⟨slot, hslot, hread, hev⟩ := h2
    exact ⟨fs2, slot, _, _, rfl, hslot, hread, hev⟩
  · exact ⟨h.aside h2.aside_same rfl, rfl⟩
  · obtain ⟨fs2, slot, desc, root, rfl, hslot, hread, hev⟩ := h2
    have hguard : m.fs.Guarded slot.bid := .inr (inodeSlot_table h.zoned.tabled hslot)
    refine .modify ⟨?_, rfl, ?_⟩
    · exact Listed.weaken (h.written hslot hread hev rfl rfl) fun x _ hx =>
        ⟨hx.1, fun heq => absurd heq hx.2⟩
    · have hedit : m.Bears (m.mapInode ino
          (Inode.editDesc fun desc => { desc with sectorCount := inode.sectorCount })) :=
        .update h.zoned.steady ino fun _ => rfl
      have hfs : (m.mapInode ino
          (Inode.editDesc fun desc => { desc with sectorCount := inode.sectorCount })).Bears
          { m.mapInode ino
            (Inode.editDesc fun desc => { desc with sectorCount := inode.sectorCount }) with fs := fs2 } :=
        .of_inodes (.captured h.zoned hguard hev) rfl
      refine (hedit.trans hfs).trans (.update hfs.fs.steady ino fun i => ?_)
      cases htree : i.tree with
      | none => simp only [Inode.clearDirty, htree, map_none]
      | some tree => simp only [Inode.clearDirty, htree, map_some, ExtentTree.bones]

theorem Listed.spliced {pre : List Nat} {pred : Nat} (h : m.Listed t P) (hl : m.chain = pre ++ pred :: ino :: post)
    (hslot : m.fs.inodeSlot t pred = .ok slot) (hread : ∃ block, m.fs.image slot.bid = some block)
    (hev : m.fs.Evolves fs1 (m.fs.patched slot.bid (patchDtime t pred slot (orphanCode post.head?))) {slot.bid})
    (hfs : m'.fs = fs1) (hchain : m'.chain = pre ++ pred :: post) : m'.Listed t P := by
  have hz := h.zoned
  have hnodup := h.mirrors.nodup
  have hmem : ∀ x ∈ pre ++ pred :: post, x ∈ m.chain := fun x hx => by
    rw [hl]
    simp only [mem_append, mem_cons] at hx ⊢
    tauto
  rw [hl] at hnodup
  have hsub : (pre ++ pred :: post).Sublist (pre ++ pred :: ino :: post) :=
    (List.Sublist.refl pre).append (((sublist_cons_self ino post)).cons_cons pred)
  have hnodup' := hnodup.sublist hsub
  refine ⟨hfs ▸ hz.evolves hev, hchain ▸ hnodup', fun x hx => h.mirrors.range x (hmem x (hchain ▸ hx)), ?_,
    hfs ▸ headKept_captured hz hslot hev h.mirrors.head, ?_⟩
  · rw [hfs, hchain, hev.sb, h.mirrors.first, hl]
    exact List.Threaded.head?_splice pre (ino :: post) post pred
  · rw [hfs, hchain]
    have hlinks := h.mirrors.links
    rw [hl] at hlinks
    refine hlinks.splice (nextOrphan_captured hz hslot hev hread fun b => ?_) fun y hy =>
      nextOrphan_apart hz hslot hev (fun b i hi => byteAt_patchDtime t pred _ b hi) ?_
    · rw [dtime_patchDtime t pred _ b (inodeSlot_fits hslot)]
      exact code_lt h.mirrors.range fun x hx => hmem x (by simp [hx])
    · rintro rfl
      have hperm := perm_middle.nodup_iff.mp hnodup'
      exact (nodup_cons.mp hperm).1 hy

theorem orphanDel_ends (h : m.Listed cfg.table P) (ino : Nat) :
    (orphanDel cfg ino).Ends m
      (fun _ m' => m'.Listed cfg.table P ∧ m'.chain = m.chain.erase ino ∧ m'.inodes = m.inodes)
      fun _ m' => m'.Listed cfg.table P ∧ m'.chain = m.chain := by
  refine .bind_get ?_
  cases hsplice : m.chain.spliceFor ino with
  | none =>
    have hnot := spliceFor_none hsplice
    exact .ret ⟨h, (erase_of_not_mem hnot).symm, rfl⟩
  | some splice =>
    rcases spliceFor_some hsplice with ⟨post, hl, rfl⟩ | ⟨pre, pred, post, hl, rfl⟩
    · have hnodup := h.mirrors.nodup
      have hlinks := h.mirrors.links
      have herase : m.chain.erase ino = post := by rw [hl, erase_cons_head]
      rw [hl] at hnodup hlinks
      refine Op.Ends.bind (Q := fun _ m1 => ∃ fs1, m1 = { m with fs := fs1 } ∧ m.fs.Evolves fs1
          (m.fs.patched superblockBid (m.fs.sb.patchInto post.head?))
            {superblockBid} ∧
        ∃ block, m.fs.image superblockBid = some block) ?_ fun _ m1 h1 => ?_
      · exact .zoom ((capturePatch_reads h.zoned.steady.ready h.zoned.live _ _).mono
          (fun _ fs1 h1 => ⟨fs1, rfl, h1⟩) fun _ fs1 h1 => ⟨h.aside h1.aside_same rfl, rfl⟩)
      · obtain ⟨fs1, rfl, hev, hread⟩ := h1
        refine .bind_modify (.modify ⟨?_, rfl, rfl⟩)
        refine head_moved h hev hread (by rfl) herase rfl (nodup_cons.mp hnodup).2
          (fun x hx => h.mirrors.range x ?_) hlinks.2
        rw [hl]
        exact mem_cons_of_mem _ hx
    · have hnodup := h.mirrors.nodup
      have herase : m.chain.erase ino = pre ++ pred :: post := by
        rw [hl] at hnodup ⊢
        have hnot : ino ∉ pre := fun hin =>
          (nodup_append.mp hnodup).2.2 ino hin ino (by simp) rfl
        have hne : pred ≠ ino := by
          have htail := (nodup_append.mp hnodup).2.1
          rintro rfl
          exact (nodup_cons.mp htail).1 List.mem_cons_self
        rw [erase_append_right _ hnot, erase_cons_tail (by simpa using hne),
          erase_cons_head]
      refine Op.Ends.bind (Q := fun _ m1 => ∃ fs1 slot, m1 = { m with fs := fs1 } ∧
        m.fs.inodeSlot cfg.table pred = .ok slot ∧ (∃ block, m.fs.image slot.bid = some block) ∧
        m.fs.Evolves fs1 (m.fs.patched slot.bid
          (patchDtime cfg.table pred slot (orphanCode post.head?))) {slot.bid}) ?_ fun _ m1 h1 => ?_
      · refine .zoom ((journalPatchDtime_captures h.zoned _ _).mono (fun _ fs1 h1 => ?_)
          fun _ fs1 h1 => ⟨h.aside h1.aside_same rfl, rfl⟩)
        obtain ⟨slot, hslot⟩ := h1
        exact ⟨fs1, slot, rfl, hslot⟩
      · obtain ⟨fs1, slot, rfl, hslot, hread, hev⟩ := h1
        exact .modify ⟨h.spliced hl hslot hread hev rfl herase, rfl, rfl⟩

end Primitives

end Mount

end Ext4
