import Ext4.Extent.Tree

namespace Ext4

open TreeFs

inductive AllocBound where
  | wholeRange
  | creditChunk
  deriving DecidableEq

inductive HoleFill where
  | filled
  | stopped (reached need : Nat)

structure HoleRun where
  start : Nat
  stop : Nat

def lastHole (stop cursor : Nat) : List HoleRun := if cursor < stop then [⟨cursor, stop⟩] else []

def computeHoles (stop : Nat) : Nat → List Extent → List HoleRun
  | cursor, [] => lastHole stop cursor
  | cursor, e :: rest =>
    if e.block + e.len ≤ cursor then computeHoles stop cursor rest
    else if stop ≤ e.block then lastHole stop cursor
    else
      (if cursor < e.block then [⟨cursor, min e.block stop⟩] else []) ++
        if stop ≤ max cursor (e.block + e.len) then []
        else computeHoles stop (max cursor (e.block + e.len)) rest

def allocGoal (extents : List Extent) (iblock : Nat) : Nat :=
  ((extents.reverse.find? fun e => e.block < iblock).map fun e => e.start + e.len).getD 0

section Manager

variable (g : JournalGeometry) (csumSeed : Option UInt32)

def nextInsertCreditBound (fs : Fs) (projectedExtents : Nat) : Nat :=
  fs.chunkInsertCredits (externalNodeCount projectedExtents)

def reserveInsert (bound : AllocBound) (need : Nat) : FsOp Bool := do
  let fs ← Op.get
  if bound = .creditChunk ∧ fs.handle.isSome then stopBeforeFree g need else Op.ret false

def insertFresh (ib start got : Nat) : TreeOp Unit := do
  let res ← Op.attempt (insert g csumSeed ib start got .unwritten)
  match res with
  | .ok _ => Op.ret ()
  | .error e => do
    let _ ← Op.attempt (onFs (Fs.freeBlocks g (.withoutRevokeDuty start got)))
    Op.fail e

inductive FillStep where
  | done (projected : Nat)
  | stopped (reached need : Nat)

def fillHole (bound : AllocBound) (goal stop : Nat) : Nat → Nat → Nat → TreeOp FillStep
  | 0, _, projected => Op.ret (.done projected)
  | fuel + 1, ib, projected =>
    if stop ≤ ib then Op.ret (.done projected)
    else do
      let s ← Op.get
      let need := nextInsertCreditBound s.fs (projected + 1)
      let halt ← onFs (reserveInsert g bound need)
      if halt then Op.ret (.stopped ib need)
      else do
        let range ← onFs (Fs.allocBlocks g (min (stop - ib) maxUnwrittenLen) goal)
        insertFresh g csumSeed ib range.start range.len
        fillHole bound goal stop fuel (ib + range.len) (projected + 1)

def fillRuns (bound : AllocBound) (extents : List Extent) : List HoleRun → Nat → TreeOp HoleFill
  | [], _ => Op.ret .filled
  | hole :: rest, projected => do
    let step ← fillHole g csumSeed bound (allocGoal extents hole.start) hole.stop
      (hole.stop - hole.start) hole.start projected
    match step with
    | .done projected => fillRuns bound extents rest projected
    | .stopped reached need => Op.ret (.stopped reached need)

def fillHoles (startIblock endIblock : Nat) (bound : AllocBound) : TreeOp HoleFill :=
  if endIblock ≤ startIblock then Op.ret .filled
  else do
    let (flat, _) ← TreeFs.flatten
    let extents := sortByBlock flat
    fillRuns g csumSeed bound extents (computeHoles endIblock startIblock extents) extents.length

def ensureAllocated (startIblock endIblock : Nat) : TreeOp Unit := do
  let _ ← fillHoles g csumSeed startIblock endIblock .wholeRange
  Op.ret ()

def ensureAllocatedChunk (startIblock endIblock : Nat) : TreeOp HoleFill :=
  fillHoles g csumSeed startIblock endIblock .creditChunk

def markRangeWritten (startIblock endIblock : Nat) : TreeOp Unit :=
  if endIblock ≤ startIblock then Op.ret ()
  else convertUnwritten g csumSeed startIblock (endIblock - startIblock)

end Manager

end Ext4
