import Ext4.Dir.Entry

namespace Ext4

open Bytes

def dxHashLegacy : Nat := 0

def dxHashHalfMd4 : Nat := 1

def dxHashTea : Nat := 2

def dxHashLegacyUnsigned : Nat := 3

def dxHashHalfMd4Unsigned : Nat := 4

def dxHashTeaUnsigned : Nat := 5

def htreeEof32bit : UInt32 := ((1 : UInt32) <<< 31) - 1

structure DirHash where
  hash : UInt32
  minorHash : UInt32
  deriving DecidableEq

structure HashBuf where
  a : UInt32
  b : UInt32
  c : UInt32
  d : UInt32
  deriving DecidableEq

namespace DirHash

def teaRounds (a b c d : UInt32) : Nat → UInt32 → UInt32 → UInt32 → UInt32 × UInt32
  | 0, _, b0, b1 => (b0, b1)
  | n + 1, sum, b0, b1 =>
    let sum := sum + 0x9E3779B9
    let b0 := b0 + (((b1 <<< 4) + a) ^^^ (b1 + sum) ^^^ ((b1 >>> 5) + b))
    let b1 := b1 + (((b0 <<< 4) + c) ^^^ (b0 + sum) ^^^ ((b0 >>> 5) + d))
    teaRounds a b c d n sum b0 b1

def teaTransform (buf : HashBuf) (input : List UInt32) : HashBuf :=
  let word (i : Nat) := input.getD i 0
  let (b0, b1) := teaRounds (word 0) (word 1) (word 2) (word 3) 16 0 buf.a buf.b
  { buf with a := buf.a + b0, b := buf.b + b1 }

def md4F (x y z : UInt32) : UInt32 := z ^^^ (x &&& (y ^^^ z))

def md4G (x y z : UInt32) : UInt32 := (x &&& y) + ((x ^^^ y) &&& z)

def md4H (x y z : UInt32) : UInt32 := x ^^^ y ^^^ z

def rotateLeft (x s : UInt32) : UInt32 := (x <<< s) ||| (x >>> (32 - s))

def md4Round (f : UInt32 → UInt32 → UInt32 → UInt32) (a b c d x s : UInt32) : UInt32 :=
  rotateLeft (a + f b c d + x) s

def md4Quad (f : UInt32 → UInt32 → UInt32 → UInt32) (s : UInt32 × UInt32 × UInt32 × UInt32)
    (x : UInt32 × UInt32 × UInt32 × UInt32) (k : UInt32) (r : HashBuf) : HashBuf :=
  let a := md4Round f r.a r.b r.c r.d (x.1 + k) s.1
  let d := md4Round f r.d a r.b r.c (x.2.1 + k) s.2.1
  let c := md4Round f r.c d a r.b (x.2.2.1 + k) s.2.2.1
  let b := md4Round f r.b c d a (x.2.2.2 + k) s.2.2.2
  ⟨a, b, c, d⟩

def halfMd4Transform (buf : HashBuf) (input : List UInt32) : HashBuf :=
  let x (i : Nat) := input.getD i 0
  let k2 : UInt32 := 0o13240474631
  let k3 : UInt32 := 0o15666365641
  let r := md4Quad md4F (3, 7, 11, 19) (x 0, x 1, x 2, x 3) 0 buf
  let r := md4Quad md4F (3, 7, 11, 19) (x 4, x 5, x 6, x 7) 0 r
  let r := md4Quad md4G (3, 5, 9, 13) (x 1, x 3, x 5, x 7) k2 r
  let r := md4Quad md4G (3, 5, 9, 13) (x 0, x 2, x 4, x 6) k2 r
  let r := md4Quad md4H (3, 9, 11, 15) (x 3, x 7, x 2, x 6) k3 r
  let r := md4Quad md4H (3, 9, 11, 15) (x 1, x 5, x 0, x 4) k3 r
  ⟨buf.a + r.a, buf.b + r.b, buf.c + r.c, buf.d + r.d⟩

def widen (signed : Bool) (byte : UInt8) : UInt32 :=
  if signed ∧ 128 ≤ byte.toNat then 0xFFFFFF00 ||| byte.toUInt32 else byte.toUInt32

def hackLoop (signed : Bool) : List UInt8 → UInt32 → UInt32 → UInt32
  | [], hash0, _ => hash0
  | byte :: rest, hash0, hash1 =>
    let hash := hash1 + (hash0 ^^^ (widen signed byte * 7152373))
    let hash := if hash &&& 0x80000000 ≠ 0 then hash - 0x7FFFFFFF else hash
    hackLoop signed rest hash hash0

def dxHackHash (name : Name) (signed : Bool) : UInt32 :=
  hackLoop signed name 0x12A3FE2D 0x37ABE8F9 <<< 1

def packWords (signed : Bool) (pad : UInt32) : List UInt8 → Nat → UInt32 → List UInt32 × UInt32
  | [], _, val => ([], val)
  | byte :: rest, i, val =>
    let val := widen signed byte + (val <<< 8)
    if i % 4 = 3 then
      let (words, last) := packWords signed pad rest (i + 1) pad
      (val :: words, last)
    else packWords signed pad rest (i + 1) val

def str2hashbuf (msg : List UInt8) (num : Nat) (signed : Bool) : List UInt32 :=
  let len := UInt32.ofNat msg.length
  let pad := len ||| (len <<< 8)
  let pad := pad ||| (pad <<< 16)
  let (words, last) := packWords signed pad (msg.take (num * 4)) 0 pad
  (words ++ last :: List.replicate num pad).take num

def rounds (transform : HashBuf → List UInt32 → HashBuf) (stride : Nat) (signed : Bool) :
    Nat → List UInt8 → HashBuf → HashBuf
  | 0, _, buf => buf
  | fuel + 1, p, buf =>
    let buf := transform buf (str2hashbuf p (stride / 4) signed)
    if p.length ≤ stride then buf else rounds transform stride signed fuel (p.drop stride) buf

def ext4fsDirhash (name : Name) (version : Nat) (seed : HashBuf) : Option DirHash :=
  let buf : HashBuf :=
    if seed = ⟨0, 0, 0, 0⟩ then ⟨0x67452301, 0xEFCDAB89, 0x98BADCFE, 0x10325476⟩ else seed
  let raw : Option DirHash :=
    if version = dxHashLegacyUnsigned then some ⟨dxHackHash name false, 0⟩
    else if version = dxHashLegacy then some ⟨dxHackHash name true, 0⟩
    else if version = dxHashHalfMd4 ∨ version = dxHashHalfMd4Unsigned then
      let buf := rounds halfMd4Transform 32 (version = dxHashHalfMd4) (name.length + 1) name buf
      some ⟨buf.b, buf.c⟩
    else if version = dxHashTea ∨ version = dxHashTeaUnsigned then
      let buf := rounds teaTransform 16 (version = dxHashTea) (name.length + 1) name buf
      some ⟨buf.a, buf.b⟩
    else none
  raw.map fun h =>
    let hash := h.hash &&& ~~~1
    ⟨if hash = htreeEof32bit <<< 1 then (htreeEof32bit - 1) <<< 1 else hash, h.minorHash⟩

-- a reference vector of the source
example : ext4fsDirhash [0x66, 0x69, 0x6C, 0x65, 0x30] dxHashHalfMd4
    ⟨0xAEC4C740, 0x834CE862, 0x09B53288, 0x34DCD3DB⟩ = some ⟨0x1C3D2670, 0xFCA488C5⟩ := by
  decide +kernel

end DirHash

structure DxCtx where
  seed : HashBuf
  unsigned : Bool

def dxEntrySize : Nat := 8

def dxNodeEntriesOff : Nat := 8

def dxRootInfoOff : Nat := 24

def dxRootInfoLen : Nat := 8

def maxIndirectLevels : Nat := 1

structure DxEntries where
  block : Block
  off : Nat
  count : Nat

namespace DxEntries

def parse (b : Block) (off : Nat) : Except Fault DxEntries :=
  let limit := getLE b off 2
  let count := getLE b (off + 2) 2
  if count < 1 ∨ limit < count ∨ 4096 < off + limit * dxEntrySize then
    .error (.error .euclean "htree: dx entry count out of range")
  else .ok ⟨b, off, count⟩

def hash (es : DxEntries) (i : Nat) : UInt32 :=
  UInt32.ofNat (getLE es.block (es.off + i * dxEntrySize) 4)

def child (es : DxEntries) (i : Nat) : Nat :=
  getLE es.block (es.off + i * dxEntrySize + 4) 4 % 2 ^ 28

def bisect (es : DxEntries) (target : UInt32) : Nat → Nat → Nat → Nat
  | 0, p, _ => p
  | fuel + 1, p, q =>
    if p ≤ q then
      let m := p + (q - p) / 2
      if target < es.hash m then bisect es target fuel p (m - 1)
      else bisect es target fuel (m + 1) q
    else p

def probe (es : DxEntries) (target : UInt32) : Nat :=
  es.child (es.bisect target es.count 1 (es.count - 1) - 1)

end DxEntries

structure DxRootInfo where
  hashVersion : Nat
  infoLength : Nat
  indirectLevels : Nat
  deriving DecidableEq

def parseDxRoot (block0 : Block) : Except Fault DxRootInfo :=
  let hashVersion := getLE block0 (dxRootInfoOff + 4) 1
  let infoLength := getLE block0 (dxRootInfoOff + 5) 1
  let indirectLevels := getLE block0 (dxRootInfoOff + 6) 1
  let unusedFlags := getLE block0 (dxRootInfoOff + 7) 1
  if infoLength ≠ dxRootInfoLen then
    .error (.error .euclean "htree: unexpected dx_root_info length")
  else if unusedFlags % 2 ≠ 0 then .error (.error .euclean "htree: unsupported hash flags")
  else if maxIndirectLevels < indirectLevels then
    .error (.error .euclean "htree: index depth exceeds supported level")
  else .ok ⟨hashVersion, infoLength, indirectLevels⟩

-- one level for each index block still to be read below this one
def dxDescend (read : Nat → Except Fault Block) (target : UInt32) :
    Nat → List Nat → Block → Nat → Except Fault (Option Nat)
  | below, visited, b, off =>
    match DxEntries.parse b off with
    | .error e => .error e
    | .ok entries =>
      let child := entries.probe target
      if child ∈ visited then .error (.error .euclean "htree: index cycle")
      else
        match below with
        | 0 => .ok (some child)
        | below + 1 =>
          match read child with
          | .error e => .error e
          | .ok b => dxDescend read target below (visited ++ [child]) b dxNodeEntriesOff

def dxLookupLeaf (read : Nat → Except Fault Block) (name : Name) (dx : DxCtx) :
    Except Fault (Option Nat) :=
  match read 0 with
  | .error e => .error e
  | .ok rootBlock =>
    match parseDxRoot rootBlock with
    | .error e => .error e
    | .ok root =>
      let version := if dx.unsigned ∧ root.hashVersion ≤ dxHashTea then root.hashVersion + 3
        else root.hashVersion
      match DirHash.ext4fsDirhash name version dx.seed with
      | none => .ok none
      | some dirhash =>
        dxDescend read dirhash.hash root.indirectLevels [0] rootBlock (dxRootInfoOff + root.infoLength)

def dxIndexBlocks (read : Nat → Except Fault Block) : Except Fault (List Nat) :=
  match read 0 with
  | .error e => .error e
  | .ok rootBlock =>
    match parseDxRoot rootBlock with
    | .error e => .error e
    | .ok root =>
      if 1 ≤ root.indirectLevels then
        match DxEntries.parse rootBlock (dxRootInfoOff + root.infoLength) with
        | .error e => .error e
        | .ok entries => .ok (0 :: (List.range entries.count).map entries.child)
      else .ok [0]

namespace Directory

variable (dir : Directory)

def readIndexBlock (idx : Nat) : Except Fault Block :=
  match dir.pages idx with
  | none => .error (.error .eio "failed to read htree index block")
  | some b =>
    if dir.nrBlocks ≤ idx then .error (.error .eio "failed to read htree index block") else .ok b

def dxLeaf (dx : DxCtx) (name : Name) : Option Nat :=
  match dxLookupLeaf dir.readIndexBlock name dx with
  | .ok (some leaf) => if leaf < dir.nrBlocks then some leaf else none
  | _ => none

def findEntryInfo (name : Name) (dx : Option DxCtx) : Except Fault DirEntryInfo :=
  match dx.bind fun dx => dir.dxLeaf dx name with
  | none => dir.scanForName name
  | some leaf =>
    match dir.scanBlockForName leaf name with
    | .error e => .error e
    | .ok (some info) => .ok info
    | .ok none => dir.scanForName name

def linearRoot (selfIno parentIno : Nat) : Block :=
  let b := DirBlock.dotDots dir.payloadLen selfIno parentIno (zeros 4096)
  if dir.csumSeed.isSome then DirBlock.writeEntry dir.payloadLen .dirTail [] b else b

def clearPage (idx : Nat) : Except Fault Directory :=
  if dir.nrBlocks ≤ idx then .error (.error .eio "")
  else dir.editPage idx fun _ => DirBlock.fresh dir.payloadLen dir.csumSeed.isSome

end Directory

end Ext4
