import Ext4.Base.Disk
import Ext4.Journal.Format

namespace Ext4

open World Bytes

variable {M : Type}

abbrev JournalIo (M α : Type) := Prog (IoSig Block M) Fault α

def readBlock (b : Nat) (msg : String) : JournalIo M Block := do
  match ← Io.read b with
  | some v => pure v
  | none => .fail (.error .eio msg)

def writeBlock (b : Nat) (v : Block) (msg : String) : JournalIo M Unit := do
  if ← Io.write b v then pure () else .fail (.error .eio msg)

def barrier : JournalIo M Unit := do
  if ← Io.barrier then pure ()
  else .fail (.error .eio "journal flush did not complete")

theorem run_writeBlock (b : Nat) (v : Block) (msg : String) (w : World Block M) :
    (writeBlock b v msg).run handle w =
      if b < w.disk.size then (.ok (), w.issue [(b, v)]) else (.error (.error .eio msg), w) := by
  by_cases h : b < w.disk.size <;>
    simp [writeBlock, Io.write, handle, h, issue, Disk.issue, Disk.write]

theorem run_barrier (w : World Block M) :
    barrier.run handle w = (.ok (), { w with disk := w.disk.barrier }) := rfl

structure JournalGeometry where
  blockMap : List Nat
  superblock : JournalSuperblock
  maxlen_le : superblock.maxlen ≤ blockMap.length
  map_lt : blockMap.length < 2 ^ 32

namespace JournalGeometry

variable {d : Disk Block} {p : Nat} {block : Block} {w : World Block M}

def maxlen (g : JournalGeometry) : Nat := g.superblock.maxlen
def first (g : JournalGeometry) : Nat := g.superblock.first
def tagLayout (g : JournalGeometry) : TagLayout := g.superblock.tagLayout
def csumSeed (g : JournalGeometry) : Option JournalCsumSeed := g.superblock.csumSeed
def ring (g : JournalGeometry) : Nat := g.maxlen - g.first

section

variable (g : JournalGeometry)

theorem first_pos : 0 < g.first := g.superblock.first_pos
theorem first_lt : g.first < g.maxlen := g.superblock.first_lt
theorem maxlen_lt : g.maxlen < 2 ^ 32 := g.superblock.maxlen_lt

end

def logBlockToPhysical (g : JournalGeometry) (log : Nat) : Option Nat := g.blockMap[log]?

def nextLogBlock (g : JournalGeometry) (cur : Nat) : Nat :=
  if g.maxlen ≤ cur + 1 then g.first else cur + 1

def advance (g : JournalGeometry) (pos : Nat) : Nat → Nat
  | 0 => pos
  | count + 1 => g.advance (g.nextLogBlock pos) count

theorem advance_add (g : JournalGeometry) (pos m n : Nat) :
    g.advance pos (m + n) = g.advance (g.advance pos m) n := by
  induction m generalizing pos with
  | zero => rw [zero_add]; rfl
  | succ m ih =>
    rw [Nat.succ_add]
    exact ih _

theorem advance_succ (g : JournalGeometry) (pos n : Nat) :
    g.advance pos (n + 1) = g.nextLogBlock (g.advance pos n) :=
  g.advance_add pos n 1

def freeLogBlocks (g : JournalGeometry) (head : Nat) : Option Nat → Nat
  | none => g.ring
  | some tail =>
    if head - g.first ≤ tail - g.first then (tail - g.first) - (head - g.first)
    else g.ring - ((head - g.first) - (tail - g.first))

def readLogBlock (g : JournalGeometry) (log : Nat) : JournalIo M Block :=
  match g.logBlockToPhysical log with
  | none => .fail (.error .euclean "log block out of range")
  | some pblock => readBlock pblock "failed to read journal log block"

def logRead (g : JournalGeometry) (d : Disk Block) (log : Nat) : Except Fault Block :=
  match g.logBlockToPhysical log with
  | none => .error (.error .euclean "log block out of range")
  | some pblock =>
    match d.read pblock with
    | none => .error (.error .eio "failed to read journal log block")
    | some block => .ok block

theorem logRead_eq_ok (g : JournalGeometry) {log : Nat} (hmap : g.logBlockToPhysical log = some p)
    (hread : d.read p = some block) :
    g.logRead d log = .ok block := by
  simp only [logRead, hmap, hread]

theorem logRead_issue {g : JournalGeometry} {ws : List (Nat × Block)}
    (h : ∀ x ∈ ws, x.1 ∉ g.blockMap) : g.logRead (d.issue ws) = g.logRead d := by
  funext log
  unfold logRead logBlockToPhysical
  cases hp : g.blockMap[log]? with
  | none => rfl
  | some p =>
    have hmem : p ∈ g.blockMap := List.mem_of_getElem? hp
    dsimp only
    rw [Disk.read_issue_other fun x hx => ne_of_mem_of_not_mem hmem (h x hx) |>.symm]

section

variable (g : JournalGeometry) (log : Nat) (w : World Block M)

theorem run_readLogBlock :
    (g.readLogBlock log).run handle w = (g.logRead w.disk log, w) := by
  unfold readLogBlock logRead
  cases g.logBlockToPhysical log with
  | none => rfl
  | some p =>
    cases h : w.disk.read p <;> simp [readBlock, Io.read, handle, h]

theorem trace_readLogBlock :
    (g.readLogBlock log).trace handle w =
      ((g.logBlockToPhysical log).map IoOp.read).toList := by
  unfold readLogBlock
  cases g.logBlockToPhysical log with
  | none => rfl
  | some p =>
    cases h : w.disk.read p <;> simp [readBlock, Io.read, handle, h]

end

def writeLogBlock (g : JournalGeometry) (log : Nat) (block : Block) : JournalIo M Unit :=
  match g.logBlockToPhysical log with
  | none => .fail (.error .euclean "log block out of range")
  | some pblock => writeBlock pblock block "failed to write journal log block"

def superblockOffset (g : JournalGeometry) : Except Fault Nat :=
  match g.logBlockToPhysical 0 with
  | none => .error (.error .euclean "journal superblock block unmapped")
  | some pblock => .ok pblock

def rawOfBlock (block : Block) : RawJournalSuperblock := fun i => block (i.castLE (by decide))

def readRawSuperblock (g : JournalGeometry) : JournalIo M RawJournalSuperblock := do
  let pblock ← Prog.ofExcept g.superblockOffset
  let block ← readBlock pblock "failed to read journal superblock"
  pure (rawOfBlock block)

theorem run_readRawSuperblock (g : JournalGeometry) (hmap : g.logBlockToPhysical 0 = some p)
    (hread : w.disk.read p = some block) :
    g.readRawSuperblock.run handle w = (.ok (rawOfBlock block), w) := by
  simp [readRawSuperblock, superblockOffset, hmap, Prog.ofExcept, readBlock, Io.read, handle, hread]

def putRaw (raw : RawJournalSuperblock) (block : Block) : Block :=
  Bytes.splice block 0 (Bytes.slice raw 0 1024)

@[simp] theorem rawOfBlock_putRaw (raw : RawJournalSuperblock) (block : Block) :
    rawOfBlock (putRaw raw block) = raw := by
  apply ext_byteAt
  intro i hi
  have hlt : i < (slice raw 0 1024).length := by simpa using hi
  have hin := @byteAt_splice_in 4096 block 0 i _ hlt (by simp)
  have hraw : byteAt (rawOfBlock (putRaw raw block)) i = byteAt (putRaw raw block) i := by
    simp [byteAt, rawOfBlock, hi, show i < 4096 by omega]
  rw [zero_add] at hin
  rw [hraw, putRaw, hin]
  simp [slice]

def writeSuperblock (g : JournalGeometry) (raw : RawJournalSuperblock) : JournalIo M Unit := do
  let pblock ← Prog.ofExcept g.superblockOffset
  if ← Io.modify pblock (putRaw raw.stampChecksum) then barrier
  else .fail (.error .eio "failed to write journal superblock")

theorem run_writeSuperblock (g : JournalGeometry) (hmap : g.logBlockToPhysical 0 = some p) (hlt : p < w.disk.size)
    (raw : RawJournalSuperblock) :
    (g.writeSuperblock raw).run handle w =
      (.ok (), { w with disk :=
        (w.disk.write p (putRaw raw.stampChecksum (w.disk.view p))).barrier }) := by
  simp [writeSuperblock, superblockOffset, hmap, Prog.ofExcept, Io.modify, handle, hlt, barrier, Io.barrier]

def small : JournalGeometry where
  blockMap := List.range 8
  superblock := {
    maxlen := 8
    first := 1
    sequence := Tid.ofNat 1
    start := none
    errno := 0
    blocksize := blockSize
    tagLayout := ⟨8, false, false, 0, .inl rfl, by decide, rfl⟩
    csumSeed := none
    maxlen_lt := by decide
    first_pos := by decide
    first_lt := by decide
    seed_iff := rfl }
  maxlen_le := by decide
  map_lt := by decide

end JournalGeometry

end Ext4
