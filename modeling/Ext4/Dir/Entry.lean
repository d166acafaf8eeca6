import Ext4.Alloc.Group

namespace Ext4

open Bytes

abbrev Name := List UInt8

def nameMax : Nat := 255

def dot : Name := [0x2E]

def dotDot : Name := [0x2E, 0x2E]

def ftDirCsum : Nat := 0xDE

def dirTailLen : Nat := 12

structure DirEntryHeader where
  ino : Nat
  recLen : Nat
  nameLen : Nat
  fileType : Nat
  deriving DecidableEq

namespace DirEntryHeader

def dirTail : DirEntryHeader := ⟨0, dirTailLen, 0, ftDirCsum⟩

def minRecLen (nameLen : Nat) : Nat := (nameLen + 8 + 3) / 4 * 4

def read (b : Block) (off : Nat) : DirEntryHeader where
  ino := getLE b off 4
  recLen := getLE b (off + 4) 2
  nameLen := getLE b (off + 6) 1
  fileType := getLE b (off + 7) 1

def bytes (h : DirEntryHeader) : List UInt8 :=
  le 4 h.ino ++ le 2 h.recLen ++ le 1 h.nameLen ++ le 1 h.fileType

end DirEntryHeader

inductive DirEntryFileType where
  | unknown | file | dir | charDevice | blockDevice | namedPipe | socket | symLink
  deriving DecidableEq

namespace DirEntryFileType

def code : DirEntryFileType → Nat
  | .unknown => 0
  | .file => 1
  | .dir => 2
  | .charDevice => 3
  | .blockDevice => 4
  | .namedPipe => 5
  | .socket => 6
  | .symLink => 7

def ofType : InodeType → DirEntryFileType
  | .file => .file
  | .dir => .dir
  | .charDevice => .charDevice
  | .blockDevice => .blockDevice
  | .namedPipe => .namedPipe
  | .socket => .socket
  | .symLink => .symLink
  | .unknown => .unknown

theorem code_lt (t : DirEntryFileType) : t.code < 8 := by
  cases t <;> decide

end DirEntryFileType

structure DirBlockView where
  block : Block
  limit : Nat

namespace DirBlockView

variable (v : DirBlockView)

def readHeader (off : Nat) : Except Fault DirEntryHeader :=
  if v.limit < off + 8 then .error (.error .eio "dir entry header crosses the block limit")
  else
    let header := DirEntryHeader.read v.block off
    if header.recLen % 4 ≠ 0 then .error (.error .eio "dir entry rec_len is not 4-byte aligned")
    else if nameMax < header.nameLen then .error (.error .eio "dir entry name_len exceeds NAME_MAX")
    else if header.ino ≠ 0 ∧ header.nameLen = 0 then
      .error (.error .eio "dir entry name_len is zero")
    else if header.recLen < DirEntryHeader.minRecLen header.nameLen then
      .error (.error .eio "dir entry rec_len too small for name_len")
    else if v.limit < off + header.recLen then
      .error (.error .eio "dir entry extends beyond block limit")
    else .ok header

def entryName (off : Nat) (header : DirEntryHeader) : Name :=
  if header.ino ≠ 0 then slice v.block (off + 8) header.nameLen else []

-- the entries in order until `visit` settles the search; a record is at least eight bytes long
def scan {β : Type} (visit : Nat → DirEntryHeader → Option β) : Nat → Nat → Except Fault (Option β)
  | 0, _ => .ok none
  | fuel + 1, cursor =>
    if v.limit ≤ cursor then .ok none
    else
      match v.readHeader cursor with
      | .error e => .error e
      | .ok header =>
        match visit cursor header with
        | some found => .ok (some found)
        | none => scan visit fuel (cursor + header.recLen)

def iterEntries {β : Type} (visit : Nat → DirEntryHeader → Option β) : Except Fault (Option β) :=
  v.scan visit (v.limit / 8 + 1) 0

def findPrev (target : Nat) : Nat → Nat → Option Nat → Except Fault (Option Nat)
  | 0, _, prev => .ok prev
  | fuel + 1, current, prev =>
    if current < target then
      let recLen := getLE v.block (current + 4) 2
      if recLen = 0 then .error (.error .eio "zero rec_len in dir entry chain")
      else if v.limit < current + recLen then
        .error (.error .eio "dir entry chain exceeds block limit")
      else findPrev target fuel (current + recLen) (some current)
    else if current ≠ target then .error (.error .eio "dir entry chain offset mismatch")
    else .ok prev

end DirBlockView

namespace DirBlock

def writeEntry (off : Nat) (header : DirEntryHeader) (name : Name) (b : Block) : Block :=
  let b := splice b off header.bytes
  if name = [] then b else splice b (off + 8) name

def setInode (off ino : Nat) (b : Block) : Block := putLE b off 4 ino

def setRecLen (off recLen : Nat) (b : Block) : Block := putLE b (off + 4) 2 recLen

def setFileType (off : Nat) (type : DirEntryFileType) (b : Block) : Block :=
  putLE b (off + 7) 1 type.code

def deleteEntry (v : DirBlockView) (off recLen : Nat) : Except Fault Block :=
  if recLen = 0 ∨ v.limit < off + recLen then
    .error (.error .eio "invalid dir entry rec_len for delete")
  else
    match v.findPrev off (off + 1) 0 none with
    | .error e => .error e
    | .ok none => .ok (setInode off 0 v.block)
    | .ok (some prev) => .ok (setInode off 0 (setRecLen prev (off + recLen - prev) v.block))

def fresh (payloadLen : Nat) (csum : Bool) : Block :=
  let b := writeEntry 0 ⟨0, payloadLen, 0, DirEntryFileType.unknown.code⟩ [] (zeros 4096)
  if csum then writeEntry payloadLen .dirTail [] b else b

def dotDots (payloadLen selfIno parentIno : Nat) (b : Block) : Block :=
  let dotLen := DirEntryHeader.minRecLen dot.length
  writeEntry dotLen ⟨parentIno, payloadLen - dotLen, dotDot.length, DirEntryFileType.dir.code⟩ dotDot
    (writeEntry 0 ⟨selfIno, dotLen, dot.length, DirEntryFileType.dir.code⟩ dot b)

def sealed (seed : UInt32) (b : Block) : Block :=
  putLE b 4092 4 (crc32c seed (slice b 0 (4096 - dirTailLen))).toNat

end DirBlock

structure DirEntryInfo where
  ino : Nat
  dirOffset : Nat
  entryRecLen : Nat
  deriving DecidableEq

structure DirSlotInfo where
  dirOffset : Nat
  slotRecLen : Nat
  usedRecLen : Nat
  deriving DecidableEq

-- the page cache of a directory inode with its size; `none` is a page that cannot be read
structure Directory where
  pages : Nat → Option Block
  size : Nat
  csumSeed : Option UInt32

namespace Directory

variable (dir : Directory)

def nrBlocks : Nat := (dir.size + 4095) / 4096

def payloadLen : Nat := 4096 - if dir.csumSeed.isSome then dirTailLen else 0

def view (idx : Nat) : Except Fault DirBlockView :=
  match dir.pages idx with
  | none => .error (.error .eio "failed to read dir entry header")
  | some b => .ok ⟨b, min (dir.size - idx * 4096) 4096⟩

def search {β : Type} (visit : Nat → Nat → DirEntryHeader → DirBlockView → Option β) :
    List Nat → Except Fault (Option β)
  | [] => .ok none
  | idx :: rest =>
    match dir.view idx with
    | .error e => .error e
    | .ok v =>
      match v.iterEntries fun off header => visit idx off header v with
      | .error e => .error e
      | .ok (some found) => .ok (some found)
      | .ok none => search visit rest

def slotAt (nameLen : Nat) (idx off : Nat) (header : DirEntryHeader) (_ : DirBlockView) :
    Option DirSlotInfo :=
  if header.fileType = ftDirCsum then none
  else
    let newRecLen := DirEntryHeader.minRecLen nameLen
    let usedRecLen := if header.ino = 0 then 0 else DirEntryHeader.minRecLen header.nameLen
    if (header.ino = 0 ∧ newRecLen ≤ header.recLen) ∨
        (header.ino ≠ 0 ∧ usedRecLen + newRecLen ≤ header.recLen) then
      some ⟨idx * 4096 + off, header.recLen, usedRecLen⟩
    else none

def findDirSlot (nameLen : Nat) : Except Fault (Option DirSlotInfo) :=
  dir.search (slotAt nameLen) (List.range dir.nrBlocks)

def nameAt (name : Name) (idx off : Nat) (header : DirEntryHeader) (v : DirBlockView) :
    Option DirEntryInfo :=
  if header.ino = 0 ∨ v.entryName off header ≠ name then none
  else some ⟨header.ino, idx * 4096 + off, header.recLen⟩

def scanBlockForName (idx : Nat) (name : Name) : Except Fault (Option DirEntryInfo) :=
  dir.search (nameAt name) [idx]

def scanForName (name : Name) : Except Fault DirEntryInfo :=
  match dir.search (nameAt name) (List.range dir.nrBlocks) with
  | .error e => .error e
  | .ok (some info) => .ok info
  | .ok none => .error (.error .enoent "")

def strayAt (selfIno : Nat) (_ off : Nat) (header : DirEntryHeader) (v : DirBlockView) : Option Unit :=
  if header.ino = 0 then none
  else if v.entryName off header = dot then if header.ino ≠ selfIno then some () else none
  else if v.entryName off header = dotDot then none
  else some ()

def emptyDir (selfIno : Nat) : Bool :=
  match dir.search (strayAt selfIno) (List.range dir.nrBlocks) with
  | .ok none => true
  | _ => false

def setPage (idx : Nat) (b : Block) : Directory :=
  { dir with pages := Function.update dir.pages idx (some b) }

def editPage (idx : Nat) (f : Block → Block) : Except Fault Directory :=
  match dir.pages idx with
  | none => .error (.error .eio "")
  | some b => .ok (dir.setPage idx (f b))

def sealDirBlock (idx : Nat) : Except Fault Directory :=
  match dir.csumSeed with
  | none => .ok dir
  | some seed =>
    match dir.pages idx with
    | none => .error (.error .eio "failed to read directory block for checksum")
    | some b => .ok (dir.setPage idx (DirBlock.sealed seed b))

def placeEntry (slot : DirSlotInfo) (name : Name) (ino : Nat) (type : DirEntryFileType) (b : Block) :
    Block :=
  let off := slot.dirOffset % 4096
  let header (recLen : Nat) : DirEntryHeader := ⟨ino, recLen, name.length, type.code⟩
  if slot.usedRecLen ≠ 0 then
    DirBlock.writeEntry (off + slot.usedRecLen) (header (slot.slotRecLen - slot.usedRecLen)) name
      (DirBlock.setRecLen off slot.usedRecLen b)
  else DirBlock.writeEntry off (header slot.slotRecLen) name b

def addEntry (slot : DirSlotInfo) (name : Name) (ino : Nat) (type : DirEntryFileType) :
    Except Fault Directory :=
  if nameMax < name.length then
    .error (.error .enametoolong "directory entry name is too long")
  else dir.editPage (slot.dirOffset / 4096) (placeEntry slot name ino type)

def deleteEntry (target : DirEntryInfo) : Except Fault Directory :=
  let idx := target.dirOffset / 4096
  match dir.view idx with
  | .error e => .error e
  | .ok v =>
    match DirBlock.deleteEntry v (target.dirOffset - idx * 4096) target.entryRecLen with
    | .error e => .error e
    | .ok b => .ok (dir.setPage idx b)

def setEntryTarget (entry : DirEntryInfo) (newIno : Nat) (newType : DirEntryFileType) :
    Except Fault Directory :=
  let idx := entry.dirOffset / 4096
  let off := entry.dirOffset - idx * 4096
  dir.editPage idx fun b => DirBlock.setFileType off newType (DirBlock.setInode off newIno b)

def growPage : Directory :=
  dir.setPage (dir.size / 4096) (DirBlock.fresh dir.payloadLen dir.csumSeed.isSome)

def publish : Directory := { dir with size := dir.size + 4096 }

def grownSlot : DirSlotInfo := ⟨dir.size, dir.payloadLen, 0⟩

end Directory

end Ext4
