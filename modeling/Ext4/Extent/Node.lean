import Ext4.Base.Table
import Ext4.Checksum
import Ext4.Journal.Format

namespace Ext4

open Bytes

def extentMagic : Nat := 0xF30A

def maxWrittenLen : Nat := 32768

def maxUnwrittenLen : Nat := maxWrittenLen - 1

def entrySize : Nat := 12

def maxDepth : Nat := 5

def inlineMax : Nat := 4

def leafMax : Nat := (4096 - entrySize) / entrySize

def interiorMax : Nat := (4096 - entrySize) / entrySize

structure RawExtentHeader where
  magic : Nat
  entries : Nat
  max : Nat
  depth : Nat
  generation : Nat

structure RawExtentIdx where
  block : Nat
  leafLo : Nat
  leafHi : Nat
  unused : Nat

structure RawExtent where
  block : Nat
  len : Nat
  startHi : Nat
  startLo : Nat

structure ExtentHeader where
  entries : Nat
  max : Nat
  depth : Nat

def ExtentHeader.isLeaf (header : ExtentHeader) : Bool := header.depth = 0

def ExtentHeader.fromTrusted (raw : RawExtentHeader) : ExtentHeader :=
  ⟨raw.entries, raw.max, raw.depth⟩

def ExtentHeader.tryFrom (raw : RawExtentHeader) : Except Fault ExtentHeader :=
  if raw.magic ≠ extentMagic then .error (.error .euclean "bad extent header magic")
  else if raw.max < raw.entries then .error (.error .euclean "extent header entries exceed max")
  else if 5 < raw.depth then .error (.error .euclean "extent tree too deep")
  else .ok ⟨raw.entries, raw.max, raw.depth⟩

structure ExtentIdx where
  block : Nat
  leaf : Nat

def ExtentIdx.ofRaw (raw : RawExtentIdx) : ExtentIdx :=
  ⟨raw.block, raw.leafLo + raw.leafHi * 2 ^ 32⟩

def makeIndexEntry (idx : ExtentIdx) : RawExtentIdx :=
  ⟨idx.block, idx.leaf, idx.leaf / 2 ^ 32, 0⟩

inductive ExtentKind where
  | written
  | unwritten
  deriving DecidableEq

structure Extent where
  block : Nat
  len : Nat
  start : Nat
  kind : ExtentKind
  deriving DecidableEq

namespace Extent

def isUnwritten (e : Extent) : Bool := e.kind = .unwritten

def covers (e : Extent) (iblock : Nat) : Bool := e.block ≤ iblock && iblock < e.block + e.len

def ofRaw (raw : RawExtent) : Extent where
  block := raw.block
  len := if maxWrittenLen < raw.len then raw.len - maxWrittenLen else raw.len
  start := raw.startLo + raw.startHi * 2 ^ 32
  kind := if maxWrittenLen < raw.len then .unwritten else .written

def toRaw (e : Extent) : RawExtent where
  block := e.block
  len := if e.isUnwritten then e.len + maxWrittenLen else e.len
  startHi := e.start / 2 ^ 32
  startLo := e.start

structure Encodable (e : Extent) : Prop where
  pos : 0 < e.len
  block_lt : e.block < 2 ^ 32
  start_lt : e.start < 2 ^ 48
  len_le : e.len ≤ if e.isUnwritten then maxUnwrittenLen else maxWrittenLen

end Extent

variable {n : Nat} {b : Buffer n}

def RawExtentHeader.read (b : Buffer n) : RawExtentHeader :=
  ⟨getLE b 0 2, getLE b 2 2, getLE b 4 2, getLE b 6 2, getLE b 8 4⟩

def RawExtentHeader.write (raw : RawExtentHeader) (b : Buffer n) : Buffer n :=
  putLE (putLE (putLE (putLE (putLE b 0 2 raw.magic) 2 2 raw.entries) 4 2 raw.max) 6 2 raw.depth)
    8 4 raw.generation

def RawExtent.read (b : Buffer n) (off : Nat) : RawExtent :=
  ⟨getLE b off 4, getLE b (off + 4) 2, getLE b (off + 6) 2, getLE b (off + 8) 4⟩

def RawExtent.write (raw : RawExtent) (b : Buffer n) (off : Nat) : Buffer n :=
  putLE (putLE (putLE (putLE b off 4 raw.block) (off + 4) 2 raw.len) (off + 6) 2 raw.startHi)
    (off + 8) 4 raw.startLo

def RawExtentIdx.read (b : Buffer n) (off : Nat) : RawExtentIdx :=
  ⟨getLE b off 4, getLE b (off + 4) 4, getLE b (off + 8) 2, getLE b (off + 10) 2⟩

def RawExtentIdx.write (raw : RawExtentIdx) (b : Buffer n) (off : Nat) : Buffer n :=
  putLE (putLE (putLE (putLE b off 4 raw.block) (off + 4) 4 raw.leafLo) (off + 8) 2 raw.leafHi)
    (off + 10) 2 raw.unused

theorem RawExtentHeader.read_write {raw : RawExtentHeader} (hn : entrySize ≤ n)
    (hmagic : raw.magic < 256 ^ 2) (hentries : raw.entries < 256 ^ 2) (hmax : raw.max < 256 ^ 2)
    (hdepth : raw.depth < 256 ^ 2) (hgen : raw.generation < 256 ^ 4) : read (raw.write b) = raw := by
  unfold entrySize at hn
  unfold read write
  simp (disch := omega) only [getLE_putLE_disjoint, getLE_putLE_same, Nat.mod_eq_of_lt]

theorem RawExtent.read_write {raw : RawExtent} {off : Nat} (hn : off + entrySize ≤ n) :
    read (raw.write b off) off = ⟨raw.block % 256 ^ 4, raw.len % 256 ^ 2, raw.startHi % 256 ^ 2,
      raw.startLo % 256 ^ 4⟩ := by
  unfold entrySize at hn
  unfold read write
  simp (disch := omega) only [getLE_putLE_disjoint, getLE_putLE_same]

theorem RawExtentIdx.read_write {raw : RawExtentIdx} {off : Nat} (hn : off + entrySize ≤ n) :
    read (raw.write b off) off = ⟨raw.block % 256 ^ 4, raw.leafLo % 256 ^ 4, raw.leafHi % 256 ^ 2,
      raw.unused % 256 ^ 2⟩ := by
  unfold entrySize at hn
  unfold read write
  simp (disch := omega) only [getLE_putLE_disjoint, getLE_putLE_same]

theorem Extent.ofRaw_toRaw {e : Extent} (he : e.Encodable) :
    ofRaw ⟨e.toRaw.block % 256 ^ 4, e.toRaw.len % 256 ^ 2, e.toRaw.startHi % 256 ^ 2,
      e.toRaw.startLo % 256 ^ 4⟩ = e := by
  obtain ⟨hpos, hblock, hstart, hlen⟩ := he
  obtain ⟨block, len, start, kind⟩ := e
  cases kind with
  | written =>
    simp only [isUnwritten, toRaw, ofRaw, maxWrittenLen, maxUnwrittenLen, reduceCtorEq, decide_false,
      Bool.false_eq_true, if_false] at *
    rw [Nat.mod_eq_of_lt (show block < 256 ^ 4 by omega), Nat.mod_eq_of_lt (show len < 256 ^ 2 by omega),
      if_neg (by omega), if_neg (by omega)]
    refine congrArg (Extent.mk block len · ExtentKind.written) ?_
    omega
  | unwritten =>
    simp only [isUnwritten, toRaw, ofRaw, maxWrittenLen, maxUnwrittenLen, decide_true, if_true] at *
    rw [Nat.mod_eq_of_lt (show block < 256 ^ 4 by omega),
      Nat.mod_eq_of_lt (show len + 32768 < 256 ^ 2 by omega), if_pos (by omega), if_pos (by omega),
      Nat.add_sub_cancel]
    refine congrArg (Extent.mk block len · ExtentKind.unwritten) ?_
    omega

def extentCell (n : Nat) : Cell n Extent where
  width := entrySize
  put b off e := e.toRaw.write b off
  get b off := .ofRaw (RawExtent.read b off)
  Fits := Extent.Encodable
  get_put b off e he hn := by rw [RawExtent.read_write hn, Extent.ofRaw_toRaw he]
  slice_put b off e o w h := by
    unfold entrySize at h
    unfold RawExtent.write putLE
    simp (disch := simp; omega) only [slice_splice_disjoint]
  get_congr b b' off h := by
    have hsub : ∀ k m, k + m ≤ entrySize → getLE b (off + k) m = getLE b' (off + k) m :=
      fun k m hk => congrArg leVal (slice_congr_sub hk h)
    unfold RawExtent.read
    rw [hsub 4 2 (by decide), hsub 6 2 (by decide), hsub 8 4 (by decide),
      show getLE b off 4 = getLE b' off 4 from hsub 0 4 (by decide)]

theorem ExtentIdx.ofRaw_makeIndexEntry {idx : ExtentIdx} (hblock : idx.block < 2 ^ 32) (hleaf : idx.leaf < 2 ^ 48) :
    ofRaw ⟨(makeIndexEntry idx).block % 256 ^ 4, (makeIndexEntry idx).leafLo % 256 ^ 4,
      (makeIndexEntry idx).leafHi % 256 ^ 2, (makeIndexEntry idx).unused % 256 ^ 2⟩ = idx := by
  obtain ⟨block, leaf⟩ := idx
  simp only [makeIndexEntry, ofRaw] at *
  rw [Nat.mod_eq_of_lt (show block < 256 ^ 4 by omega)]
  congr 1
  omega

def idxCell (n : Nat) : Cell n ExtentIdx where
  width := entrySize
  put b off idx := (makeIndexEntry idx).write b off
  get b off := .ofRaw (RawExtentIdx.read b off)
  Fits idx := idx.block < 2 ^ 32 ∧ idx.leaf < 2 ^ 48
  get_put b off idx hfits hn := by
    rw [RawExtentIdx.read_write hn, ExtentIdx.ofRaw_makeIndexEntry hfits.1 hfits.2]
  slice_put b off idx o w h := by
    unfold entrySize at h
    unfold RawExtentIdx.write putLE
    simp (disch := simp; omega) only [slice_splice_disjoint]
  get_congr b b' off h := by
    have hsub : ∀ k m, k + m ≤ entrySize → getLE b (off + k) m = getLE b' (off + k) m :=
      fun k m hk => congrArg leVal (slice_congr_sub hk h)
    unfold RawExtentIdx.read
    rw [hsub 4 4 (by decide), hsub 8 2 (by decide), hsub 10 2 (by decide),
      show getLE b off 4 = getLE b' off 4 from hsub 0 4 (by decide)]

end Ext4
