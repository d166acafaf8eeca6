import Ext4.Dir.Entry

namespace Ext4

open Bytes DirEntryHeader

structure Rec where
  ino : Nat
  recLen : Nat
  nameLen : Nat
  fileType : Nat
  name : Name
  deriving DecidableEq

variable {r : Rec} {lo hi : Nat}

namespace Rec

def at_ (b : Block) (off : Nat) : Rec :=
  let h := DirEntryHeader.read b off
  ⟨h.ino, h.recLen, h.nameLen, h.fileType, slice b (off + 8) h.nameLen⟩

def header (r : Rec) : DirEntryHeader := ⟨r.ino, r.recLen, r.nameLen, r.fileType⟩

structure Wf (r : Rec) : Prop where
  aligned : r.recLen % 4 = 0
  nameLen_le : r.nameLen ≤ nameMax
  named : r.ino ≠ 0 → r.nameLen ≠ 0
  fits : DirEntryHeader.minRecLen r.nameLen ≤ r.recLen

def live (r : Rec) : Option (Name × Nat) := if r.ino = 0 then none else some (r.name, r.ino)

def tail : Rec := ⟨0, dirTailLen, 0, ftDirCsum, []⟩

theorem Wf.room (h : r.Wf) : 8 + r.nameLen ≤ r.recLen := by
  have := h.fits
  unfold minRecLen at this
  omega

theorem tail_wf : tail.Wf := ⟨by decide, by decide, by decide, by decide⟩

end Rec

theorem minRecLen_dvd (n : Nat) : minRecLen n % 4 = 0 := by
  unfold minRecLen
  omega

theorem le_minRecLen (n : Nat) : 8 + n ≤ minRecLen n := by
  unfold minRecLen
  omega

theorem minRecLen_le {n : Nat} (h : n ≤ nameMax) : minRecLen n ≤ 264 := by
  unfold minRecLen
  unfold nameMax at h
  omega

def Agree (b b' : Block) (off stop : Nat) : Prop := ∀ i, off ≤ i → i < stop → byteAt b' i = byteAt b i

theorem Agree.slice_eq {b b' : Block} (h : Agree b b' lo hi) {off : Nat} (len : Nat) (hlo : lo ≤ off)
    (hhi : off + len ≤ hi) : slice b' off len = slice b off len := by
  apply List.map_congr_left
  intro i hi'
  have := List.mem_range.mp hi'
  exact h _ (by omega) (by omega)

theorem Agree.mono {b b' : Block} {lo' hi' : Nat} (h : Agree b b' lo hi) (hlo : lo ≤ lo')
    (hhi : hi' ≤ hi) : Agree b b' lo' hi' := fun i h1 h2 => h i (by omega) (by omega)

theorem Agree.trans {b b' b'' : Block} (h : Agree b b' lo hi) (h' : Agree b' b'' lo hi) :
    Agree b b'' lo hi := fun i h1 h2 => (h' i h1 h2).trans (h i h1 h2)

theorem agree_splice (b : Block) {off : Nat} {src : List UInt8}
    (h : hi ≤ off ∨ off + src.length ≤ lo) : Agree b (splice b off src) lo hi := fun i h1 h2 =>
  byteAt_splice_out (by omega)

theorem agree_putLE (b : Block) {off w v : Nat} (h : hi ≤ off ∨ off + w ≤ lo) :
    Agree b (putLE b off w v) lo hi := agree_splice b (by simpa using h)

theorem Agree.read {b b' : Block} {off : Nat} (h : Agree b b' off (off + 8)) :
    DirEntryHeader.read b' off = DirEntryHeader.read b off := by
  simp only [DirEntryHeader.read, getLE, h.slice_eq 4 (le_refl off) (by omega),
    h.slice_eq 2 (show off ≤ off + 4 by omega) (by omega),
    h.slice_eq 1 (show off ≤ off + 6 by omega) (by omega),
    h.slice_eq 1 (show off ≤ off + 7 by omega) (by omega)]

theorem Agree.at_ {b b' : Block} {off stop : Nat} (h : Agree b b' off stop)
    (hroom : off + 8 + (Rec.at_ b off).nameLen ≤ stop) : Rec.at_ b' off = Rec.at_ b off := by
  have hread : DirEntryHeader.read b' off = DirEntryHeader.read b off :=
    (h.mono (le_refl off) (by omega)).read
  have hname : slice b' (off + 8) (DirEntryHeader.read b off).nameLen =
      slice b (off + 8) (DirEntryHeader.read b off).nameLen := h.slice_eq _ (by omega) hroom
  simp only [Rec.at_, hread, hname]

def Seg (b : Block) : Nat → Nat → List Rec → Prop
  | off, stop, [] => off = stop
  | off, stop, r :: rest =>
    Rec.at_ b off = r ∧ r.Wf ∧ off + r.recLen ≤ stop ∧ Seg b (off + r.recLen) stop rest

def recSpan (recs : List Rec) : Nat := (recs.map Rec.recLen).sum

@[simp] theorem recSpan_nil : recSpan [] = 0 := rfl

@[simp] theorem recSpan_cons (r : Rec) (recs : List Rec) : recSpan (r :: recs) = r.recLen + recSpan recs := by
  simp [recSpan]

@[simp] theorem recSpan_append (a b : List Rec) : recSpan (a ++ b) = recSpan a + recSpan b := by
  simp [recSpan]

namespace Seg

variable {b b' : Block} {off stop : Nat} {recs : List Rec} {front back : List Rec}

theorem stop_eq (h : Seg b off stop recs) : off + recSpan recs = stop := by
  induction recs generalizing off with
  | nil => exact h
  | cons r rest ih =>
    have := ih h.2.2.2
    rw [recSpan_cons]
    omega

theorem append_iff :
    Seg b off stop (front ++ back) ↔
      Seg b off (off + recSpan front) front ∧ Seg b (off + recSpan front) stop back := by
  induction front generalizing off with
  | nil => simp [Seg]
  | cons r rest ih =>
    simp only [List.cons_append, Seg, recSpan_cons, ← add_assoc]
    rw [ih]
    constructor
    · rintro ⟨hat, hwf, hle, hfront, hback⟩
      exact ⟨⟨hat, hwf, by omega, hfront⟩, hback⟩
    · rintro ⟨⟨hat, hwf, -, hfront⟩, hback⟩
      have := hback.stop_eq
      exact ⟨hat, hwf, by omega, hfront, hback⟩

theorem congr (h : Seg b off stop recs) (hag : Agree b b' off stop) : Seg b' off stop recs := by
  induction recs generalizing off with
  | nil => exact h
  | cons r rest ih =>
    obtain ⟨rfl, hwf, hle, hrest⟩ := h
    have hroom := hwf.room
    refine ⟨hag.at_ (by omega), hwf, hle, ih hrest (hag.mono (by omega) le_rfl)⟩

theorem wf (h : Seg b off stop recs) : ∀ r ∈ recs, r.Wf := by
  induction recs generalizing off with
  | nil =>
    intro r hr
    cases hr
  | cons r rest ih =>
    intro x hx
    rcases List.mem_cons.mp hx with rfl | hx
    · exact h.2.1
    · exact ih h.2.2.2 x hx

theorem singleton (hat : Rec.at_ b off = r) (hwf : r.Wf) : Seg b off (off + r.recLen) [r] :=
  ⟨hat, hwf, le_rfl, rfl⟩

theorem replace {old new : List Rec} (h : Seg b off stop (front ++ old ++ back))
    (hnew : Seg b' (off + recSpan front) (off + recSpan front + recSpan old) new)
    (hlow : Agree b b' off (off + recSpan front)) (hhigh : Agree b b' (off + recSpan front + recSpan old) stop) :
    Seg b' off stop (front ++ new ++ back) := by
  have hspan : recSpan new = recSpan old := by
    have := hnew.stop_eq
    omega
  rw [append_iff] at h
  obtain ⟨hfo, hback⟩ := h
  rw [append_iff] at hfo
  rw [recSpan_append, ← add_assoc] at hback
  rw [append_iff, append_iff, recSpan_append, hspan, ← add_assoc]
  exact ⟨⟨hfo.1.congr hlow, hnew⟩, hback.congr hhigh⟩

end Seg

end Ext4
