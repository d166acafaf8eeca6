import Ext4.Alloc.Volume
import Ext4.Base.Chunks
import Ext4.Extent.Node

namespace Ext4

open Bytes

inductive Step where
  | found (extent : Extent)
  | hole
  | descend (bid : Nat)

section Search

variable {n : Nat} {α : Type}

def scanEntries (key : α → Nat) (iblock : Nat) : Option α → List α → Option α
  | covering, [] => covering
  | covering, a :: rest => if key a ≤ iblock then scanEntries key iblock (some a) rest else covering

def searchEntries (header : ExtentHeader) (b : Buffer n) (iblock : Nat) : Except Fault Step :=
  if n < entrySize * (1 + header.entries) then
    .error (.error .euclean "extent node entries overrun node")
  else if header.isLeaf then
    match scanEntries Extent.block iblock none ((extentCell n).readAll b entrySize header.entries) with
    | some extent => .ok (if extent.covers iblock then .found extent else .hole)
    | none => .ok .hole
  else
    match scanEntries ExtentIdx.block iblock none ((idxCell n).readAll b entrySize header.entries) with
    | some idx => .ok (.descend idx.leaf)
    | none => .ok .hole

def searchNode (b : Buffer n) (iblock : Nat) : Except Fault Step :=
  match ExtentHeader.tryFrom (.read b) with
  | .error e => .error e
  | .ok header => searchEntries header b iblock

def parseLeafNode (b : Block) : Except Fault (List Extent) :=
  match ExtentHeader.tryFrom (.read b) with
  | .error e => .error e
  | .ok header =>
    if header.isLeaf = false then .error (.error .euclean "external extent leaf is not a leaf node")
    else if 4096 < entrySize * (1 + header.entries) then
      .error (.error .euclean "extent leaf entries overrun node")
    else .ok ((extentCell 4096).readAll b entrySize header.entries)

def parseInteriorNode (b : Block) : Except Fault (List Nat) :=
  match ExtentHeader.tryFrom (.read b) with
  | .error e => .error e
  | .ok header =>
    if header.isLeaf = true ∨ header.depth ≠ 1 then
      .error (.error .euclean "depth-2 child is not a depth-1 interior node")
    else if 4096 < entrySize * (1 + header.entries) then
      .error (.error .euclean "extent index entries overrun node")
    else .ok (((idxCell 4096).readAll b entrySize header.entries).map ExtentIdx.leaf)

end Search

def extentTailOffset : Nat := entrySize * (1 + leafMax)

def stampExtentTail (seed : UInt32) (b : Block) : Block :=
  putLE b extentTailOffset 4 (crc32c seed (slice b 0 extentTailOffset)).toNat

def nodeBytes {α : Type} (n max depth : Nat) (c : Cell n α) (entries : List α) : Buffer n :=
  c.writeAll (RawExtentHeader.write ⟨extentMagic, entries.length, max, depth, 0⟩ (zeros n)) entrySize
    entries

def sealNode (csumSeed : Option UInt32) (b : Block) : Block :=
  match csumSeed with
  | none => b
  | some seed => stampExtentTail seed b

def leafNode (csumSeed : Option UInt32) (extents : List Extent) : Block :=
  sealNode csumSeed (nodeBytes 4096 leafMax 0 (extentCell 4096) extents)

def interiorNode (csumSeed : Option UInt32) (idxEntries : List ExtentIdx) : Block :=
  sealNode csumSeed (nodeBytes 4096 interiorMax 1 (idxCell 4096) idxEntries)

def inlineLeafRoot (extents : List Extent) : Buffer 60 :=
  nodeBytes 60 inlineMax 0 (extentCell 60) extents

def indexRoot (entries : List ExtentIdx) (depth : Nat) : Buffer 60 :=
  nodeBytes 60 inlineMax depth (idxCell 60) entries

structure ExtentTree where
  root : Buffer 60
  sectorCount : Nat
  dirty : Bool

structure TreeDelta where
  metaAllocated : Nat
  metaFreed : Nat

def sectorsPerBlock : Nat := 8

namespace ExtentTree

def empty : ExtentTree := ⟨inlineLeafRoot [], 0, false⟩

def header (tree : ExtentTree) : ExtentHeader := .fromTrusted (.read tree.root)

def depth (tree : ExtentTree) : Nat := tree.header.depth

def descend (iblock : Nat) : Nat → Step → FsOp (Option Extent)
  | _, .found extent => Op.ret (some extent)
  | _, .hole => Op.ret none
  | 0, .descend _ => Op.fail (.error .euclean "extent tree deeper than maximum depth")
  | fuel + 1, .descend bid => do
    let block ← Fs.readMetadataBlock bid
    let step ← Op.ofExcept (searchNode block iblock)
    descend iblock fuel step

def lookup (tree : ExtentTree) (iblock : Nat) : FsOp (Option Extent) := do
  let step ← Op.ofExcept (searchEntries tree.header tree.root iblock)
  descend iblock maxDepth step

def readLeaves : List Nat → FsOp (List Extent)
  | [] => Op.ret []
  | leafBid :: rest => do
    let block ← Fs.readMetadataBlock leafBid
    let extents ← Op.ofExcept (parseLeafNode block)
    let others ← readLeaves rest
    Op.ret (extents ++ others)

def readInteriors : List Nat → FsOp (List Extent × List Nat)
  | [] => Op.ret ([], [])
  | interiorBid :: rest => do
    let interior ← Fs.readMetadataBlock interiorBid
    let leafBids ← Op.ofExcept (parseInteriorNode interior)
    let extents ← readLeaves leafBids
    let (others, external) ← readInteriors rest
    Op.ret (extents ++ others, interiorBid :: leafBids ++ external)

def flatten (tree : ExtentTree) : FsOp (List Extent × List Nat) :=
  let nr := tree.header.entries
  if tree.header.isLeaf then Op.ret ((extentCell 60).readAll tree.root entrySize nr, [])
  else if tree.header.depth ≠ 1 ∧ tree.header.depth ≠ 2 then
    Op.fail (.error .euclean "extent tree deeper than phase 6 supports")
  else
    let childBids := ((idxCell 60).readAll tree.root entrySize nr).map ExtentIdx.leaf
    if tree.header.depth = 1 then do
      let extents ← readLeaves childBids
      Op.ret (extents, childBids)
    else readInteriors childBids

end ExtentTree

def sortByBlock (extents : List Extent) : List Extent :=
  extents.mergeSort fun a b => a.block ≤ b.block

def sortDescending (extents : List Extent) : List Extent :=
  extents.mergeSort fun a b => b.block ≤ a.block

def Extent.maxLen (e : Extent) : Nat := if e.isUnwritten then maxWrittenLen - 1 else maxWrittenLen

def Extent.contiguous (last e : Extent) : Bool :=
  last.block + last.len = e.block && last.start + last.len = e.start &&
    last.isUnwritten == e.isUnwritten && last.len + e.len ≤ last.maxLen

def mergeInto (last : Extent) : List Extent → List Extent
  | [] => [last]
  | e :: rest =>
    if last.contiguous e then mergeInto ⟨last.block, last.len + e.len, last.start, last.kind⟩ rest
    else last :: mergeInto e rest

def mergeRuns : List Extent → List Extent
  | [] => []
  | e :: rest => mergeInto e rest

def mergeExtents (extents : List Extent) : List Extent := mergeRuns (sortByBlock extents)

def externalNodeCount (extents : Nat) : Nat :=
  if extents ≤ inlineMax then 0
  else
    let nrLeaves := (extents + leafMax - 1) / leafMax
    nrLeaves + if nrLeaves ≤ inlineMax then 0 else (nrLeaves + interiorMax - 1) / interiorMax

namespace Fs

def superblockCredits : Nat := 1

def inodeDescCredits : Nat := 1

def nrGdtBlocks (fs : Fs) : Nat :=
  let descriptorsPerBlock := max (4096 / fs.sb.descSize) 1
  (fs.sb.nrBlockGroups + descriptorsPerBlock - 1) / descriptorsPerBlock

def reserializeCredits (fs : Fs) (externalNodes : Nat) : Nat :=
  let touched := externalNodes + 1
  externalNodes + min touched fs.sb.nrBlockGroups + min touched fs.nrGdtBlocks + superblockCredits

def chunkInsertCredits (fs : Fs) (externalNodes : Nat) : Nat :=
  fs.reserializeCredits externalNodes + inodeDescCredits

def extentFreeCredits : Nat := 1 + 1 + 1

def truncateChunkCredits (fs : Fs) (externalNodes : Nat) : Nat :=
  fs.reserializeCredits externalNodes + inodeDescCredits

end Fs

section Rebuild

variable (g : JournalGeometry)

def allocMetaBlock (goal : Nat) : FsOp Nat := do
  let range ← Fs.allocBlocks g 1 goal
  let _ ← Fs.getCreateAccess g range.start
  Op.ret range.start

def freeMetaBlock (bid : Nat) : FsOp Unit := Fs.freeBlocks g (Fs.forget bid 1)

def rollbackMetaBlocks : List Nat → FsOp Unit
  | [] => Op.ret ()
  | bid :: rest => do
    let _ ← Op.attempt (freeMetaBlock g bid)
    rollbackMetaBlocks rest

def orRollback {α : Type} (newlyAllocated : List Nat) (m : FsOp α) : FsOp α := do
  let res ← Op.attempt m
  match res with
  | .ok a => Op.ret a
  | .error e => do
    rollbackMetaBlocks g newlyAllocated
    Op.fail e

def allocateNew (goal : Nat) : Nat → List Nat → FsOp (List Nat)
  | 0, newlyAllocated => Op.ret newlyAllocated
  | count + 1, newlyAllocated => do
    let bid ← orRollback g newlyAllocated (allocMetaBlock g goal)
    allocateNew goal count (newlyAllocated ++ [bid])

def acquireMetaBlocks (pool : List Nat) (count goal : Nat) : FsOp (List Nat × List Nat) := do
  let reuse := min count pool.length
  let newlyAllocated ← allocateNew g goal (count - reuse) []
  Op.ret (pool.take reuse ++ newlyAllocated, newlyAllocated)

def writeNode (bid : Nat) (block : Block) : FsOp Unit := do
  let access ← Fs.getWriteAccess g bid
  Fs.patch access fun _ => block
  if access.isLive then Op.ret () else Fs.writeDevice bid block

def writeLeafNode (csumSeed : Option UInt32) (bid : Nat) (extents : List Extent) : FsOp Unit :=
  writeNode g bid (leafNode csumSeed extents)

def writeInteriorNode (csumSeed : Option UInt32) (bid : Nat) (idxEntries : List ExtentIdx) :
    FsOp Unit :=
  writeNode g bid (interiorNode csumSeed idxEntries)

end Rebuild

structure TreeFs where
  tree : ExtentTree
  fs : Fs

abbrev TreeOp (α : Type) : Type := Op TreeFs Fault α

namespace TreeFs

variable {α : Type}

def onFs (m : FsOp α) : TreeOp α := Op.zoom TreeFs.fs (fun fs s => { s with fs := fs }) m

def setRoot (root : Buffer 60) : TreeOp Unit :=
  Op.modify fun s => { s with tree := { s.tree with root := root } }

def flatten : TreeOp (List Extent × List Nat) := do
  let s ← Op.get
  onFs s.tree.flatten

def account (blocks : Int) : TreeOp Unit := Op.modify fun s =>
  { s with tree := { s.tree with
      sectorCount := (s.tree.sectorCount + blocks * sectorsPerBlock).toNat
      dirty := true } }

end TreeFs

def TreeDelta.netMeta (delta : TreeDelta) : Int := delta.metaAllocated - delta.metaFreed

def firstBlock (chunk : List Extent) : Nat := (chunk.head?.map Extent.block).getD 0

def firstKey (chunk : List ExtentIdx) : Nat := (chunk.head?.map ExtentIdx.block).getD 0

def leafIndex (extents : List Extent) (leafBids : List Nat) : List ExtentIdx :=
  ((extents.chunks leafMax).zip leafBids).map fun p => ⟨firstBlock p.1, p.2⟩

def rootIndex (index : List ExtentIdx) (interiorBids : List Nat) : List ExtentIdx :=
  ((index.chunks interiorMax).zip interiorBids).map fun p => ⟨firstKey p.1, p.2⟩

section Mutate

open TreeFs

variable (g : JournalGeometry) (csumSeed : Option UInt32)

def freeMetaBlocks (bids : List Nat) : FsOp Nat := do
  Op.each (freeMetaBlock g) bids
  Op.ret bids.length

def writeLeaves (extents : List Extent) (leafBids : List Nat) : FsOp Unit :=
  Op.each (fun p => writeLeafNode g csumSeed p.2 p.1) ((extents.chunks leafMax).zip leafBids)

def writeInteriors (index : List ExtentIdx) (interiorBids : List Nat) : FsOp Unit :=
  Op.each (fun p => writeInteriorNode g csumSeed p.2 p.1)
    ((index.chunks interiorMax).zip interiorBids)

def reserialize (extents : List Extent) (oldExternal : List Nat) : TreeOp TreeDelta :=
  if extents.length ≤ inlineMax then do
    setRoot (inlineLeafRoot extents)
    let metaFreed ← onFs (freeMetaBlocks g oldExternal)
    Op.ret ⟨0, metaFreed⟩
  else
    let nrLeaves := (extents.length + leafMax - 1) / leafMax
    let goal := (extents.head?.map Extent.start).getD 0
    if nrLeaves ≤ inlineMax then do
      let reuse := min nrLeaves oldExternal.length
      let (leafBids, newlyAllocated) ← onFs (acquireMetaBlocks g oldExternal nrLeaves goal)
      onFs (orRollback g newlyAllocated (writeLeaves g csumSeed extents leafBids))
      setRoot (indexRoot (leafIndex extents leafBids) 1)
      let metaFreed ← onFs (freeMetaBlocks g (oldExternal.drop reuse))
      Op.ret ⟨newlyAllocated.length, metaFreed⟩
    else
      let nrInterior := (nrLeaves + interiorMax - 1) / interiorMax
      if inlineMax < nrInterior then Op.fail (.error .enospc "extent tree would exceed depth 2")
      else do
        let total := nrLeaves + nrInterior
        let reuse := min total oldExternal.length
        let (blocks, newlyAllocated) ← onFs (acquireMetaBlocks g oldExternal total goal)
        let leafBids := blocks.take nrLeaves
        let interiorBids := blocks.drop nrLeaves
        onFs (orRollback g newlyAllocated (writeLeaves g csumSeed extents leafBids))
        let index := leafIndex extents leafBids
        onFs (orRollback g newlyAllocated (writeInteriors g csumSeed index interiorBids))
        setRoot (indexRoot (rootIndex index interiorBids) 2)
        let metaFreed ← onFs (freeMetaBlocks g (oldExternal.drop reuse))
        Op.ret ⟨newlyAllocated.length, metaFreed⟩

def insert (iblock pblock len : Nat) (kind : ExtentKind) : TreeOp Unit := do
  let (extents, oldExternal) ← TreeFs.flatten
  let delta ← reserialize g csumSeed (mergeExtents (extents ++ [⟨iblock, len, pblock, kind⟩]))
    oldExternal
  account (len + delta.netMeta)

def Extent.overlapsRange (e : Extent) (rangeStart rangeEnd : Nat) : Bool :=
  e.block < rangeEnd && rangeStart < e.block + e.len

def Extent.convert (rangeStart rangeEnd : Nat) (e : Extent) : List Extent :=
  if !e.isUnwritten || e.block + e.len ≤ rangeStart || rangeEnd ≤ e.block then [e]
  else
    let ovStart := max e.block rangeStart
    let ovEnd := min (e.block + e.len) rangeEnd
    (if e.block < ovStart then [⟨e.block, ovStart - e.block, e.start, .unwritten⟩] else []) ++
      [⟨ovStart, ovEnd - ovStart, e.start + (ovStart - e.block), .written⟩] ++
      (if ovEnd < e.block + e.len then
        [⟨ovEnd, e.block + e.len - ovEnd, e.start + (ovEnd - e.block), .unwritten⟩] else [])

def convertUnwritten (iblock len : Nat) : TreeOp Unit := do
  let (extents, oldExternal) ← TreeFs.flatten
  if extents.any fun e => e.isUnwritten && e.overlapsRange iblock (iblock + len) then
    let delta ← reserialize g csumSeed
      (mergeExtents (extents.flatMap (Extent.convert iblock (iblock + len)))) oldExternal
    account delta.netMeta
  else Op.ret ()

end Mutate

inductive DataForgetPolicy where
  | forget
  | plainData
  deriving DecidableEq

def DataForgetPolicy.authorize (policy : DataForgetPolicy) (start count : Nat) : Fs.BlockFreeAuth :=
  match policy with
  | .forget => Fs.forget start count
  | .plainData => Fs.BlockFreeAuth.withoutRevokeDuty start count

structure TruncateChunk where
  reached : Nat
  nextBound : Nat

structure PunchChunk where
  more : Bool
  nextBound : Nat

section Shrink

open TreeFs

variable (g : JournalGeometry) (csumSeed : Option UInt32) (policy : DataForgetPolicy)

def stopBeforeFree (need : Nat) : FsOp Bool := do
  let outcome ← Fs.tryReserveNext g need
  Op.ret (decide (outcome = .needsRestart))

def probe (chunked : Bool) (need : Nat) : FsOp Bool := do
  let fs ← Op.get
  if chunked ∧ fs.handle.isSome then stopBeforeFree g need else Op.ret false

def probeTail (chunked : Bool) (need : Nat) (stopped : Bool) : FsOp Bool :=
  if stopped then Op.ret true else probe g chunked need

-- frees from the front of the list and returns how many extents went before the stop
def freeDoomed (chunked : Bool) (need : Nat) : List Extent → FsOp Nat
  | [] => Op.ret 0
  | e :: rest => do
    let stop ← probe g chunked need
    if stop then Op.ret 0
    else do
      Fs.freeBlocks g (policy.authorize e.start e.len)
      let freed ← freeDoomed chunked need rest
      Op.ret (freed + 1)

def totalLen (extents : List Extent) : Nat := (extents.map Extent.len).sum

def shrinkTree (kept : List Extent) (oldExternal : List Nat) (freedData : Nat) : TreeOp Unit := do
  let delta ← reserialize g csumSeed (sortByBlock kept) oldExternal
  account (delta.netMeta - freedData)

def frontier (extents : List Extent) : Nat :=
  (extents.map fun e => e.block + e.len).foldl max 0

def truncateTooWide : Fault :=
  .error .efbig "one truncate chunk's reserialize plus a free exceeds a journal transaction"

def Extent.straddles (keepBlocks : Nat) (e : Extent) : Bool :=
  e.block < keepBlocks && keepBlocks < e.block + e.len

def freeTail (chunked : Bool) (need keepBlocks : Nat) (stopped : Bool) :
    Option Extent → FsOp (List Extent × Nat)
  | none => Op.ret ([], 0)
  | some s => do
    let stop ← probeTail g chunked need stopped
    if stop then Op.ret ([s], 0)
    else do
      Fs.freeBlocks g
        (policy.authorize (s.start + (keepBlocks - s.block)) (s.len - (keepBlocks - s.block)))
      Op.ret ([⟨s.block, keepBlocks - s.block, s.start, s.kind⟩], s.len - (keepBlocks - s.block))

def blocksOf (size : Nat) : Nat := (size + 4095) / 4096

-- cast to a block index without a check
def keepBlocks (newSize : Nat) : Nat := blocksOf newSize % 2 ^ 32

theorem keepBlocks_le (newSize : Nat) : keepBlocks newSize ≤ blocksOf newSize := Nat.mod_le _ _

def truncateChunk (newSize : Nat) (maxCredits : Option Nat) : TreeOp TruncateChunk := do
  let keepBlocks := keepBlocks newSize
  let (flat, oldExternal) ← TreeFs.flatten
  let extents := sortByBlock flat
  let s ← Op.get
  let need := Fs.extentFreeCredits + s.fs.truncateChunkCredits (externalNodeCount extents.length)
  let straddler := extents.find? (Extent.straddles keepBlocks)
  let doomed := sortDescending (extents.filter fun e => keepBlocks ≤ e.block)
  if maxCredits.any (fun limit => limit < need) ∧ (doomed ≠ [] ∨ straddler.isSome) then
    Op.fail truncateTooWide
  else
    let freedUpTo ← onFs (freeDoomed g policy maxCredits.isSome need doomed)
    let (rest, tail) ← onFs
      (freeTail g policy maxCredits.isSome need keepBlocks (freedUpTo < doomed.length) straddler)
    let kept := (extents.filter fun e => e.block + e.len ≤ keepBlocks) ++ doomed.drop freedUpTo ++ rest
    shrinkTree g csumSeed kept oldExternal (totalLen (doomed.take freedUpTo) + tail)
    let s ← Op.get
    Op.ret ⟨frontier kept, Fs.extentFreeCredits + s.fs.truncateChunkCredits (externalNodeCount kept.length)⟩

def truncateToByteLen (newSize : Nat) : TreeOp Unit := do
  let _ ← truncateChunk g csumSeed policy newSize none
  Op.ret ()

def Extent.outside (startBlock endBlock : Nat) (e : Extent) : Bool :=
  e.block + e.len ≤ startBlock || endBlock ≤ e.block

def Extent.punchKept (startBlock endBlock : Nat) (e : Extent) : List Extent :=
  if e.outside startBlock endBlock then [e]
  else
    (if e.block < startBlock then [⟨e.block, startBlock - e.block, e.start, e.kind⟩] else []) ++
      (if endBlock < e.block + e.len then
        [⟨endBlock, e.block + e.len - endBlock, e.start + (endBlock - e.block), e.kind⟩] else [])

def Extent.punchDoomed (startBlock endBlock : Nat) (e : Extent) : List Extent :=
  if e.outside startBlock endBlock then []
  else
    let ovStart := max e.block startBlock
    let ovEnd := min (e.block + e.len) endBlock
    [⟨ovStart, ovEnd - ovStart, e.start + (ovStart - e.block), e.kind⟩]

def punchTooWide : Fault :=
  .error .efbig "one punch chunk's reserialize plus a free exceeds a journal transaction"

def punchChunk (startBlock endBlock : Nat) (maxCredits : Option Nat) : TreeOp PunchChunk :=
  if endBlock ≤ startBlock then Op.ret ⟨false, Fs.extentFreeCredits⟩
  else do
    let (flat, oldExternal) ← TreeFs.flatten
    let extents := sortByBlock flat
    let s ← Op.get
    let kept := extents.flatMap (Extent.punchKept startBlock endBlock)
    let doomed := sortDescending (extents.flatMap (Extent.punchDoomed startBlock endBlock))
    let need := Fs.extentFreeCredits +
      s.fs.truncateChunkCredits (externalNodeCount (kept.length + doomed.length))
    if maxCredits.any (fun limit => limit < need) ∧ doomed ≠ [] then Op.fail punchTooWide
    else
      let freedUpTo ← onFs (freeDoomed g policy maxCredits.isSome need doomed)
      let survivors := kept ++ doomed.drop freedUpTo
      shrinkTree g csumSeed survivors oldExternal (totalLen (doomed.take freedUpTo))
      let s ← Op.get
      Op.ret ⟨freedUpTo < doomed.length,
        Fs.extentFreeCredits + s.fs.truncateChunkCredits (externalNodeCount survivors.length)⟩

end Shrink

end Ext4
