import Ext4.Mount.Resize

namespace Ext4

open Op TreeFs

def alignUp (n : Nat) : Nat := blocksOf n * 4096

structure PageCache where
  capacity : Nat
  bytes : Nat → UInt8
  backing : Nat → UInt8

namespace PageCache

def put (pages : PageCache) (offset : Nat) (data : List UInt8) : PageCache :=
  { pages with bytes := fun p => if offset ≤ p then data.getD (p - offset) (pages.bytes p) else pages.bytes p }

def setCapacity (pages : PageCache) (capacity : Nat) : PageCache :=
  if pages.capacity = capacity then pages
  else
    { pages with
      capacity := capacity
      bytes := fun p => if p < capacity then pages.bytes p else pages.backing p }

end PageCache

-- an inode under its lock; `accesses` tells how the coming accesses to its pages end, `some (k, e)`
-- for one that fails with `e` behind its first `k` bytes
structure FileState where
  mount : Mount
  pages : PageCache
  reader : List UInt8
  accesses : List (Option (Nat × Fault))
  syncTid : Option Tid
  datasyncTid : Option Tid

abbrev FileOp (α : Type) : Type := Op FileState Fault α

def writeRangeOverflow : Fault := .error .einval "write range overflow"

def insertTooWide : Fault :=
  .error .efbig "one extent insert's whole-tree reserialize exceeds a journal transaction"

def Fault.isEnospc : Fault → Bool
  | .error .enospc _ => true
  | _ => false

inductive ChunkWrite where
  | wrote (reached : Nat)
  | stalled (need : Nat)

namespace Fs

def writeCredits (fs : Fs) (depth : Nat) : Nat :=
  fs.singleBlockMapCredits depth + superblockCredits + inodeDescCredits

def journalExtend (g : JournalGeometry) (extra : Nat) : FsOp ExtendOutcome :=
  underHandle .granted fun h st => st.journalExtend g h extra

def shouldRetryAlloc (fs : Fs) : Bool := fs.journal.any fun j => !j.state.pinnedFrees.entries.isEmpty

end Fs

namespace Handles

variable (H : Handles) (cfg : Config)

def ensureChunkCredits (need : Nat) : FsOp Unit := do
  let fs ← Op.get
  match fs.handle with
  | none => Op.ret ()
  | some h =>
    if need ≤ h.remaining then Op.ret ()
    else do
      let outcome ← Fs.journalExtend cfg.geometry (need - h.remaining)
      if outcome = .granted then Op.ret () else H.restart need

end Handles

namespace FileState

variable {α : Type}

def onMount (m : MountOp α) : FileOp α := Op.zoom FileState.mount (fun m s => { s with mount := m }) m

def onFs (m : FsOp α) : FileOp α := onMount (Mount.onFs m)

section Pages

def access (len : Nat) (f : Nat → FileState → FileState) : FileOp Unit := fun s =>
  match s.accesses with
  | some (k, e) :: rest => (.error e, f (min k len) { s with accesses := rest })
  | none :: rest => (.ok (), f len { s with accesses := rest })
  | [] => (.ok (), f len s)

def copyIn (offset n : Nat) (s : FileState) : FileState :=
  { s with pages := s.pages.put offset (s.reader.take n), reader := s.reader.drop n }

def writePages (offset : Nat) : FileOp Unit := fun s =>
  let len := min s.reader.length (s.pages.capacity - offset)
  if len = 0 then (.ok (), s) else access len (copyIn offset) s

def fillZeros (start stop : Nat) : FileOp Unit := fun s =>
  if stop ≤ start then (.ok (), s)
  else if s.pages.capacity < stop then
    (.error (.error .einval "the range to fill exceeds the VMO size"), s)
  else access (stop - start) (fun n s => { s with pages := s.pages.put start (List.replicate n 0) }) s

def fillBoundary (newSize oldSize : Nat) : FileOp Unit :=
  if newSize < oldSize ∧ newSize % 4096 ≠ 0 then fillZeros newSize (min oldSize (alignUp newSize))
  else if oldSize < newSize ∧ oldSize % 4096 ≠ 0 then fillZeros oldSize (min newSize (alignUp oldSize))
  else Op.ret ()

def resizeCache (newSize oldSize : Nat) : FileOp Unit := do
  fillBoundary newSize oldSize
  Op.modify fun s => { s with pages := s.pages.setCapacity (alignUp newSize) }

def boundaryMapped (ino boundary : Nat) : MountOp Bool :=
  if boundary % 4096 = 0 then Op.ret false
  else if 2 ^ 32 ≤ boundary / 4096 then
    Op.fail (.error .efbig "resize boundary beyond the 32-bit logical block space")
  else do
    let found ← Mount.mapBlocks ino (boundary / 4096)
    Op.ret found.isSome

def resizePageCache (ino newSize oldSize : Nat) : FileOp Unit := do
  let inode ← onMount (Mount.readInode ino)
  match inode.tree with
  | none => Op.fail (.error .einval "inode has no data page cache")
  | some _ =>
    let mapped ← onMount (boundaryMapped ino (min newSize oldSize))
    if mapped then resizeCache newSize oldSize else resizeCache (alignUp newSize) (alignUp oldSize)

end Pages

variable (H : Handles) (cfg : Config)

def prepareWrite (ino offset stop : Nat) : FileOp Unit := do
  let inode ← onMount (Mount.readInode ino)
  let startBlock := offset / 4096
  let endBlock := blocksOf stop
  if 2 ^ 32 ≤ startBlock ∨ 2 ^ 32 ≤ endBlock then Op.fail blockIndexTooBig
  else do
    Op.when (inode.desc.size < stop) do
      onMount (Mount.ensureSizeWithinLimit ino stop)
      resizePageCache ino stop inode.desc.size
    onMount (Mount.onTree ino (ensureAllocated cfg.geometry inode.csumSeed startBlock endBlock))

def rollbackWrite (ino oldSize stop : Nat) : FileOp Unit :=
  if stop ≤ oldSize then Op.ret ()
  else do
    let _ ← Op.attempt (resizePageCache ino oldSize stop)
    let _ ← Op.attempt (onMount (Mount.truncateToByteLen cfg ino oldSize))
    Op.ret ()

def orRollbackWrite (ino oldSize stop : Nat) (m : FileOp α) : FileOp α := do
  let res ← Op.attempt m
  match res with
  | .ok a => Op.ret a
  | .error e => do
    rollbackWrite cfg ino oldSize stop
    Op.fail e

def markWritten (ino startBlock endBlock : Nat) : FileOp Unit := do
  let inode ← onMount (Mount.readInode ino)
  onMount (Mount.onTree ino (markRangeWritten cfg.geometry inode.csumSeed startBlock endBlock))

def writeInner (ino offset : Nat) (now : Duration) : FileOp Nat := do
  let s ← Op.get
  let writeLen := s.reader.length
  let stop := offset + writeLen
  if writeLen = 0 then Op.ret 0
  else if 2 ^ 64 ≤ stop then Op.fail writeRangeOverflow
  else do
    let inode ← onMount (Mount.readInode ino)
    let oldSize := inode.desc.size
    orRollbackWrite cfg ino oldSize stop (prepareWrite cfg ino offset stop)
    orRollbackWrite cfg ino oldSize stop (writePages offset)
    orRollbackWrite cfg ino oldSize stop (markWritten cfg ino (offset / 4096) (blocksOf stop))
    onMount (Mount.updateDesc ino (InodeDesc.setMtimeCtime now))
    Op.when (oldSize < stop) (onMount (Mount.updateDesc ino (InodeDesc.setSize stop)))
    Op.ret writeLen

section Append

def landChunk (ino offset stop cursor reached : Nat) (now : Duration) : FileOp ChunkWrite := do
  let inode ← onMount (Mount.readInode ino)
  let chunkEnd := min stop (reached * 4096)
  onMount (Mount.ensureSizeWithinLimit ino chunkEnd)
  resizePageCache ino chunkEnd inode.desc.size
  writePages (max offset (cursor * 4096))
  markWritten cfg ino cursor reached
  onMount (Mount.updateDesc ino (InodeDesc.setMtimeCtime now))
  onMount (Mount.updateDesc ino (InodeDesc.setSize chunkEnd))
  Op.ret (.wrote reached)

def tryWriteChunk (ino offset stop cursor : Nat) (now : Duration) : FileOp ChunkWrite := do
  let endBlock := blocksOf stop
  if 2 ^ 32 ≤ endBlock then Op.fail blockIndexTooBig
  else do
    let inode ← onMount (Mount.readInode ino)
    let fill ← onMount
      (Mount.onTree ino (ensureAllocatedChunk cfg.geometry inode.csumSeed cursor endBlock))
    match fill with
    | .filled => landChunk cfg ino offset stop cursor endBlock now
    | .stopped reached need =>
      if reached = cursor then Op.ret (.stalled need)
      else landChunk cfg ino offset stop cursor reached now

def writeBoundedChunk (ino offset stop cursor : Nat) (now : Duration) : FileOp ChunkWrite := do
  let inode ← onMount (Mount.readInode ino)
  orRollbackWrite cfg ino inode.desc.size stop (tryWriteChunk cfg ino offset stop cursor now)

def writeBack (ino : Nat) : FileOp Unit := do
  let inode ← onMount (Mount.readInode ino)
  onMount (Mount.writeBackInodeDesc cfg ino)
  Op.when (inode.isDirty = true) (Op.modify fun s =>
    { s with syncTid := (s.mount.fs.handle.map Handle.tid).or s.syncTid })

def stampDatasyncTid : FileOp Unit := Op.modify fun s =>
  { s with datasyncTid := (s.mount.fs.handle.map Handle.tid).or s.datasyncTid }

def registerOrderedData (ino : Nat) : FileOp Unit := do
  let inode ← onMount (Mount.readInode ino)
  Op.when (inode.tree.isSome = true) (onMount (Mount.registerOrderedData ino inode.desc.size))

-- the source loops until the range is written, here for at most `rounds`
def appendLoop (ino offset stop : Nat) (now : Duration) : Nat → Nat → Nat → FileOp Nat
  | 0, _, _ => Op.fail .spin
  | rounds + 1, cursor, written =>
    if blocksOf stop ≤ cursor then do
      stampDatasyncTid
      Op.ret (stop - offset)
    else do
      let inode ← onMount (Mount.readInode ino)
      let s ← Op.get
      onFs (H.ensureChunkCredits cfg (s.mount.fs.writeCredits (Mount.rootDepth inode)))
      let res ← Op.attempt (writeBoundedChunk cfg ino offset stop cursor now)
      match res with
      | .error e => if 0 < written then Op.ret written else Op.fail e
      | .ok (.stalled need) =>
        if (Mount.chunkLimit cfg s.mount).any (fun limit => limit < need) then
          if 0 < written then Op.ret written else Op.fail insertTooWide
        else do
          onFs (H.restart need)
          appendLoop ino offset stop now rounds cursor written
      | .ok (.wrote reached) => do
        writeBack cfg ino
        registerOrderedData ino
        appendLoop ino offset stop now rounds reached (min (reached * 4096) stop - offset)

def writeAppendChunked (ino offset stop rounds : Nat) (now : Duration) : FileOp Nat :=
  if 2 ^ 32 ≤ offset / 4096 ∨ 2 ^ 32 ≤ blocksOf stop then Op.fail blockIndexTooBig
  else appendLoop H cfg ino offset stop now rounds (offset / 4096) 0

end Append

def during (credits : Nat) (op : FileOp α) : FileOp α := do
  onFs (H.beginOp credits)
  let res ← Op.attempt op
  onFs H.close
  Op.ofExcept res

def withOp (credits : Nat) (op : FileOp α) : FileOp α := do
  let s ← Op.get
  if s.mount.fs.journal.isSome then during H credits op else op

def writeUnderHandle (ino offset rounds : Nat) (now : Duration) : FileOp Nat := do
  let s ← Op.get
  let inode ← onMount (Mount.readInode ino)
  if s.mount.fs.handle.isSome ∧ inode.desc.size ≤ offset then
    writeAppendChunked H cfg ino offset (offset + s.reader.length) rounds now
  else do
    let len ← writeInner cfg ino offset now
    Op.when (s.mount.fs.handle.isSome = true) do
      writeBack cfg ino
      stampDatasyncTid
      registerOrderedData ino
    Op.ret len

def writeAtOnce (ino offset rounds : Nat) (now : Duration) : FileOp Nat := do
  let s ← Op.get
  if 2 ^ 64 ≤ offset + s.reader.length then Op.fail writeRangeOverflow
  else do
    let inode ← onMount (Mount.readInode ino)
    withOp H (s.mount.fs.writeCredits (Mount.rootDepth inode)) (writeUnderHandle H cfg ino offset rounds now)

def allocEnospcRetries : Nat := 3

def writeRetrying (settle : FsOp Unit) (ino offset rounds : Nat) (now : Duration) : Nat → FileOp Nat
  | 0 => writeAtOnce H cfg ino offset rounds now
  | retries + 1 => do
    let s ← Op.get
    let res ← Op.attempt (writeAtOnce H cfg ino offset rounds now)
    let s' ← Op.get
    match res with
    | .ok n => Op.ret n
    | .error e =>
      if e.isEnospc ∧ s'.reader.length = s.reader.length ∧ s'.mount.fs.shouldRetryAlloc then do
        onFs settle
        writeRetrying settle ino offset rounds now retries
      else Op.fail e

def writeAt (settle : FsOp Unit) (ino offset rounds : Nat) (now : Duration) : FileOp Nat := do
  let inode ← onMount (Mount.readInode ino)
  let s ← Op.get
  if inode.isDir then Op.fail (.error .eisdir "")
  else if s.reader.length = 0 then Op.ret 0
  else writeRetrying H cfg settle ino offset rounds now allocEnospcRetries

end FileState

def TreeFs.Holds (s : TreeFs) (i b : Nat) : Prop :=
  (∃ e, (s.tree.lookup i s.fs).1 = .ok (some e) ∧ b = e.start + (i - e.block)) ∧ s.fs.blockUsed b = true

section Spared

variable {s s' : TreeFs} {extents : List Extent} {external : List Nat} {i b : Nat}

theorem Stands.holds (h : Stands s extents external) :
    s.Holds i b ↔ ∃ kind, (i, b, kind) ∈ contents extents := by
  have hlook : (s.tree.lookup i s.fs).1 = .ok (extents.find? fun e => e.covers i) := by rw [h.lookup]
  constructor
  · rintro ⟨⟨e, he, rfl⟩, -⟩
    obtain ⟨hmem, hcov⟩ := h.sound.find?.mp (Except.ok.inj (hlook.symm.trans he))
    exact ⟨e.kind, mem_contents.mpr ⟨e, hmem, Extent.mem_cells.mpr ⟨hcov, rfl, rfl⟩⟩⟩
  · rintro ⟨kind, hx⟩
    obtain ⟨e, hmem, hcell⟩ := mem_contents.mp hx
    obtain ⟨hcov, hb, -⟩ := Extent.mem_cells.mp hcell
    refine ⟨⟨e, hlook.trans (congrArg Except.ok (h.sound.find?.mpr ⟨hmem, hcov⟩)), hb⟩, ?_⟩
    exact h.owns.used b (List.mem_append_left _ (List.mem_map.mpr ⟨_, hx, rfl⟩))

theorem Halted.holds (hhalt : Halted s True s') (habort : s'.fs.aborted = false) (hb : s.Holds i b) :
    s'.Holds i b := by
  rcases hhalt.kept trivial with hno | rfl
  · rw [habort] at hno
    cases hno
  · exact hb

theorem Reaches.holds {old : List Nat} {bindings : List Binding} (h : Reaches s s' old bindings)
    (hb : ∃ kind, (i, b, kind) ∈ bindings) : s'.Holds i b := by
  obtain ⟨extents', external', hstands, hperm, -⟩ := h
  obtain ⟨kind, hmem⟩ := hb
  exact hstands.holds.mpr ⟨kind, hperm.mem_iff.mpr hmem⟩

end Spared

theorem truncateToByteLen_lone {g : JournalGeometry} {csumSeed : Option UInt32} {policy : DataForgetPolicy}
    {newSize : Nat} {s s1 s2 : TreeFs} {e : Extent} {delta : TreeDelta} {net : Int}
    (hnet : delta.netMeta - e.len = net) (hlen : e.len ≠ 0) (hkeep : keepBlocks newSize = 0) (hflat : flatten s = (.ok ([e], []), s))
    (hfree : ∀ need, onFs (freeDoomed g policy false need [e]) s = (.ok 1, s1))
    (hrun : reserialize g csumSeed [] [] s1 = (.ok delta, s2)) :
    truncateToByteLen g csumSeed policy newSize s = (.ok (), (account net s2).2) := by
  have hsort : sortByBlock [e] = [e] := List.mergeSort_singleton e
  have hdoomed : sortDescending ([e].filter fun e => 0 ≤ e.block) = [e] := List.mergeSort_singleton e
  have hshrink : shrinkTree g csumSeed [] [] (totalLen ([e].take 1) + (([] : List Extent), 0).2) s1 =
      (.ok (), (account net s2).2) := by
    unfold shrinkTree
    rw [sortByBlock, List.mergeSort_nil, Op.bind_ok hrun, ← hnet]
    rfl
  have hnone : [e].find? (Extent.straddles 0) = none := by simp [Extent.straddles]
  have htail : ∀ need, onFs (freeTail g policy false need 0 (decide (1 < [e].length)) none) s1 =
      (.ok ([], 0), s1) := fun _ => rfl
  have hchunk : ∃ r, truncateChunk g csumSeed policy newSize none s =
      (.ok r, (account net s2).2) := by
    unfold truncateChunk
    rw [hkeep, Op.bind_ok hflat]
    dsimp only
    rw [Op.get_bind, hsort, hnone, hdoomed, if_neg (by rintro ⟨h, -⟩; cases h), Option.isSome_none,
      Op.bind_ok (hfree _), Op.bind_ok (htail _)]
    have hkept : ([e].filter fun e => decide (e.block + e.len ≤ 0)) ++ [e].drop 1 ++ [] = [] := by simp [hlen]
    rw [hkept, Op.bind_ok hshrink]
    exact ⟨_, rfl⟩
  obtain ⟨r, hchunk⟩ := hchunk
  unfold truncateToByteLen
  rw [Op.bind_ok hchunk]
  rfl

namespace FileState

def vastTree : ExtentTree := ⟨inlineLeafRoot [⟨0, 1, 8, .written⟩], 8, false⟩

def vastDesc : InodeDesc := { Mount.sampleDesc .file 1 with size := 2 ^ 44, sectorCount := 8 }

def vastFile : Inode := { Mount.sampleFile 1 with desc := vastDesc, tree := some vastTree }

def vast : FileState where
  mount := Mount.sampleMount 20 [] (fun _ => none) fun ino =>
    if ino = 12 then some vastFile else none
  pages := ⟨2 ^ 44, fun _ => 0, fun _ => 0⟩
  reader := [1, 2]
  accesses := []
  syncTid := none
  datasyncTid := none

def vastFreed : Except Fault Nat × TreeFs :=
  TreeFs.onFs (freeDoomed Specimen.wide .plainData false 8 [⟨0, 1, 8, .written⟩]) ⟨vastTree, vast.mount.fs⟩

def vastRebuilt : Except Fault TreeDelta × TreeFs := reserialize Specimen.wide none [] [] vastFreed.2

theorem vast_runs :
    (vastTree.flatten vast.mount.fs).1.toOption = some ([⟨0, 1, 8, .written⟩], []) ∧
    vastFreed.1.toOption = some 1 ∧ vastRebuilt.1.toOption.map TreeDelta.pair = some (0, 0) ∧
    vastRebuilt.2.fs.blockUsed 8 = false ∧
    (vastTree.lookup 0 vast.mount.fs).1.toOption = some (some ⟨0, 1, 8, .written⟩) ∧
    vast.mount.fs.blockUsed 8 = true := by
  decide +kernel

def shorn (s : TreeFs) : Mount := { vast.mount with fs := s.fs }.setInode 12 { vastFile with tree := some s.tree }

theorem shorn_fs (s : TreeFs) : (shorn s).fs = s.fs := rfl

def vastLost : TreeFs := (TreeFs.account (-1) vastRebuilt.2).2

theorem vastLost_fs : vastLost.fs = vastRebuilt.2.fs := account_fs _ _

theorem truncateToByteLen_vast :
    Mount.truncateToByteLen Mount.sampleConfig 12 (2 ^ 44) vast.mount = (.ok (), shorn vastLost) := by
  obtain ⟨hread, hfreed, hrebuilt, -⟩ := vast_runs
  have hrun : Ext4.truncateToByteLen Specimen.wide none .plainData (2 ^ 44) ⟨vastTree, vast.mount.fs⟩ =
      (.ok (), (account (-1) vastRebuilt.2).2) :=
    truncateToByteLen_lone (e := ⟨0, 1, 8, .written⟩) (by decide) (by decide) (by decide)
      (eq_ok_of_toOption (r := flatten ⟨vastTree, vast.mount.fs⟩) hread)
      (fun _ => eq_ok_of_toOption (r := vastFreed) hfreed) (eq_delta (r := vastRebuilt) hrebuilt)
  have hmember : vast.mount.inodes 12 = some vastFile := rfl
  have hinode : Mount.readInode 12 vast.mount = (.ok vastFile, vast.mount) := rfl
  unfold Mount.truncateToByteLen
  rw [Op.bind_ok hinode]
  exact Mount.onTree_eq hmember rfl hrun

end FileState

end Ext4
