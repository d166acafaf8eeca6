import Ext4.Base.Assoc
import Ext4.Dir.Chain

namespace Ext4

open Bytes DirEntryHeader List Directory

variable {name : Name} {ino recLen idx : Nat} {v : DirBlockView} {slot : DirSlotInfo}

namespace DirBlock

variable {b : Block} {off : Nat} {h : DirEntryHeader}

theorem header_bytes_length (h : DirEntryHeader) : h.bytes.length = 8 := by
  simp [bytes]

section

variable (b : Block)

theorem agree_writeEntry {lo hi : Nat}
    (hd : hi ≤ off ∨ off + 8 + name.length ≤ lo) : Agree b (writeEntry off h name b) lo hi := by
  have hhead : Agree b (splice b off h.bytes) lo hi :=
    agree_splice b (by rw [header_bytes_length]; omega)
  unfold writeEntry
  dsimp only
  split
  · exact hhead
  · exact hhead.trans (agree_splice _ (by omega))

theorem read_splice (hino : h.ino < 256 ^ 4) (hrec : h.recLen < 256 ^ 2) (hname : h.nameLen < 256 ^ 1)
    (htype : h.fileType < 256 ^ 1) (hoff : off + 8 ≤ 4096) :
    DirEntryHeader.read (splice b off h.bytes) off = h := by
  have hall := slice_splice_same b off h.bytes (by rw [header_bytes_length]; exact hoff)
  rw [header_bytes_length] at hall
  have hpart : ∀ k m, k + m ≤ 8 →
      getLE (splice b off h.bytes) (off + k) m = leVal ((h.bytes.drop k).take m) := by
    intro k m hkm
    rw [getLE, slice_sub _ off hkm, hall]
  have h0 : (h.bytes.drop 0).take 4 = le 4 h.ino := rfl
  have h4 : (h.bytes.drop 4).take 2 = le 2 h.recLen := rfl
  have h6 : (h.bytes.drop 6).take 1 = le 1 h.nameLen := rfl
  have h7 : (h.bytes.drop 7).take 1 = le 1 h.fileType := rfl
  have hread := hpart 0 4 (by decide)
  rw [h0, leVal_le, Nat.mod_eq_of_lt hino, add_zero] at hread
  simp only [DirEntryHeader.read, hread, hpart 4 2 (by decide), hpart 6 1 (by decide),
    hpart 7 1 (by decide), h4, h6, h7, leVal_le]
  rw [Nat.mod_eq_of_lt hrec, Nat.mod_eq_of_lt hname, Nat.mod_eq_of_lt htype]

theorem at_writeEntry (hlen : h.nameLen = name.length) (hino : h.ino < 256 ^ 4)
    (hrec : h.recLen < 256 ^ 2) (hname : name.length ≤ nameMax) (htype : h.fileType < 256 ^ 1)
    (hoff : off + 8 + name.length ≤ 4096) :
    Rec.at_ (writeEntry off h name b) off = ⟨h.ino, h.recLen, h.nameLen, h.fileType, name⟩ := by
  have hread := read_splice b hino hrec (by rw [hlen]; exact Nat.lt_succ_of_le hname) htype
    (show off + 8 ≤ 4096 by omega)
  unfold writeEntry
  dsimp only
  split
  next hnil =>
    simp only [Rec.at_, hread, hlen, hnil]
    rfl
  next =>
    have hkeep : Agree (splice b off h.bytes) (splice (splice b off h.bytes) (off + 8) name) off
        (off + 8) := agree_splice _ (.inl le_rfl)
    have hslice := slice_splice_same (splice b off h.bytes) (off + 8) name hoff
    simp only [Rec.at_, hkeep.read, hread, hlen, hslice]

theorem name_putLE {k w : Nat} (hk : k + w ≤ 8) (v n : Nat) :
    slice (putLE b (off + k) w v) (off + 8) n = slice b (off + 8) n :=
  slice_splice_disjoint (.inr (by rw [le_length]; omega))

theorem at_setInode (hino : ino < 256 ^ 4) (hoff : off + 8 ≤ 4096) :
    Rec.at_ (setInode off ino b) off = { Rec.at_ b off with ino := ino } := by
  have hname : ∀ n, slice (putLE b off 4 ino) (off + 8) n = slice b (off + 8) n :=
    name_putLE b (k := 0) (by decide) ino
  simp (disch := omega) only [Rec.at_, DirEntryHeader.read, setInode, hname, getLE_putLE_same,
    getLE_putLE_disjoint, Nat.mod_eq_of_lt]

theorem at_setRecLen (hrec : recLen < 256 ^ 2) (hoff : off + 8 ≤ 4096) :
    Rec.at_ (setRecLen off recLen b) off = { Rec.at_ b off with recLen := recLen } := by
  simp (disch := omega) only [Rec.at_, DirEntryHeader.read, setRecLen, name_putLE, getLE_putLE_same,
    getLE_putLE_disjoint, Nat.mod_eq_of_lt]

theorem at_setFileType (type : DirEntryFileType) (hoff : off + 8 ≤ 4096) :
    Rec.at_ (setFileType off type b) off = { Rec.at_ b off with fileType := type.code } := by
  have htype := type.code_lt
  simp (disch := omega) only [Rec.at_, DirEntryHeader.read, setFileType, name_putLE, getLE_putLE_same,
    getLE_putLE_disjoint, Nat.mod_eq_of_lt]

end

end DirBlock

def withTail (csum : Bool) (recs : List Rec) : List Rec := recs ++ if csum then [Rec.tail] else []

structure Formed (csum : Bool) (b : Block) (recs : List Rec) : Prop where
  chain : Seg b 0 4096 (withTail csum recs)
  untailed : ∀ r ∈ recs, r.fileType ≠ ftDirCsum

def payload (csum : Bool) : Nat := 4096 - if csum then dirTailLen else 0

theorem recSpan_withTail (csum : Bool) (recs : List Rec) :
    recSpan (withTail csum recs) + payload csum = recSpan recs + 4096 := by
  cases csum with
  | false => simp [withTail, payload]
  | true => simp [withTail, payload, Rec.tail, dirTailLen]

namespace Formed

variable {csum : Bool} {b b' : Block} {recs : List Rec} {front back : List Rec}

theorem recSpan_eq (h : Formed csum b recs) : recSpan recs = payload csum := by
  have hstop := h.chain.stop_eq
  have hspan := recSpan_withTail csum recs
  omega

theorem edit {old new : List Rec} (h : Formed csum b (front ++ old ++ back))
    (hnew : Seg b' (recSpan front) (recSpan front + recSpan old) new) (htype : ∀ r ∈ new, r.fileType ≠ ftDirCsum)
    (hlow : Agree b b' 0 (recSpan front))
    (hhigh : Agree b b' (recSpan front + recSpan old) 4096) : Formed csum b' (front ++ new ++ back) := by
  have hassoc : ∀ mid, withTail csum (front ++ mid ++ back) = front ++ mid ++ withTail csum back :=
    fun mid => by simp [withTail]
  have hchain := h.chain
  rw [hassoc] at hchain
  refine ⟨?_, fun r hr => ?_⟩
  · rw [hassoc]
    refine hchain.replace ?_ ?_ ?_
    · rw [zero_add]
      exact hnew
    · rw [zero_add]
      exact hlow
    · rw [zero_add]
      exact hhigh
  · rcases mem_append.mp hr with hr | hr
    · rcases mem_append.mp hr with hr | hr
      · exact h.untailed r (mem_append_left _ (mem_append_left _ hr))
      · exact htype r hr
    · exact h.untailed r (mem_append_right _ hr)

theorem at_ {r : Rec} (h : Formed csum b (front ++ r :: back)) :
    Rec.at_ b (recSpan front) = r ∧ r.Wf ∧ recSpan front + r.recLen ≤ payload csum := by
  have hspan := h.recSpan_eq
  have hchain := h.chain
  rw [withTail, append_assoc, cons_append, Seg.append_iff, zero_add] at hchain
  obtain ⟨hat, hwf, -, -⟩ := hchain.2
  refine ⟨hat, hwf, ?_⟩
  rw [recSpan_append, recSpan_cons] at hspan
  omega

end Formed

def newRec (name : Name) (ino : Nat) (type : DirEntryFileType) (recLen : Nat) : Rec :=
  ⟨ino, recLen, name.length, type.code, name⟩

theorem payload_le (csum : Bool) : payload csum ≤ 4096 := Nat.sub_le _ _

theorem code_ne_csum (t : DirEntryFileType) : t.code ≠ ftDirCsum := by
  cases t <;> decide

theorem newRec_wf {type : DirEntryFileType} (hpos : name ≠ []) (hname : name.length ≤ nameMax)
    (hrec : minRecLen name.length ≤ recLen) (haligned : recLen % 4 = 0) : (newRec name ino type recLen).Wf :=
  ⟨haligned, hname, fun _ => fun h => hpos (length_eq_zero_iff.mp h), hrec⟩

namespace Formed

variable {csum : Bool} {b : Block} {front back : List Rec} {r : Rec}

section

variable (h : Formed csum b (front ++ r :: back)) (type : DirEntryFileType) (hino : ino < 256 ^ 4)

include h type hino

theorem reuse (hpos : name ≠ []) (hname : name.length ≤ nameMax) (hroom : minRecLen name.length ≤ r.recLen) :
    Formed csum (DirBlock.writeEntry (recSpan front) ⟨ino, r.recLen, name.length, type.code⟩ name b)
      (front ++ newRec name ino type r.recLen :: back) := by
  obtain ⟨-, hwf, hle⟩ := h.at_
  have hpay := payload_le csum
  have hlen := le_minRecLen name.length
  rw [append_cons] at h ⊢
  refine h.edit ?_ ?_ (DirBlock.agree_writeEntry b (.inl le_rfl))
    (DirBlock.agree_writeEntry b (.inr ?_))
  · rw [recSpan_cons, recSpan_nil, add_zero]
    refine Seg.singleton (DirBlock.at_writeEntry b rfl hino ?_ hname ?_ ?_) ?_
    · exact lt_of_le_of_lt (show r.recLen ≤ 4096 by omega) (by decide)
    · exact lt_trans type.code_lt (by decide)
    · omega
    · exact newRec_wf hpos hname hroom hwf.aligned
  · intro x hx
    rw [mem_singleton.mp hx]
    exact code_ne_csum type
  · rw [recSpan_cons, recSpan_nil]
    omega

theorem split (hpos : name ≠ []) (hname : name.length ≤ nameMax)
    (hroom : minRecLen r.nameLen + minRecLen name.length ≤ r.recLen) :
    Formed csum
      (DirBlock.writeEntry (recSpan front + minRecLen r.nameLen) ⟨ino, r.recLen - minRecLen r.nameLen,
        name.length, type.code⟩ name (DirBlock.setRecLen (recSpan front) (minRecLen r.nameLen) b))
      (front ++ { r with recLen := minRecLen r.nameLen } ::
        newRec name ino type (r.recLen - minRecLen r.nameLen) :: back) := by
  obtain ⟨hat, hwf, hle⟩ := h.at_
  have hpay := payload_le csum
  have hlen := le_minRecLen name.length
  have hused := le_minRecLen r.nameLen
  have hdvd := minRecLen_dvd r.nameLen
  have haligned := hwf.aligned
  have htype := h.untailed r (mem_append_right _ mem_cons_self)
  rw [append_cons] at h
  have hout : front ++ { r with recLen := minRecLen r.nameLen } ::
      newRec name ino type (r.recLen - minRecLen r.nameLen) :: back =
      front ++ [{ r with recLen := minRecLen r.nameLen },
        newRec name ino type (r.recLen - minRecLen r.nameLen)] ++ back := by simp
  rw [hout]
  generalize hu : minRecLen r.nameLen = used at *
  have hshrunk : Rec.at_ (DirBlock.setRecLen (recSpan front) used b) (recSpan front) =
      { r with recLen := used } := by
    rw [DirBlock.at_setRecLen b (lt_of_le_of_lt (show used ≤ 4096 by omega) (by decide))
      (by omega), hat]
  refine h.edit ?_ ?_ ?_ ?_
  · rw [recSpan_cons, recSpan_nil, add_zero]
    refine ⟨?_, ⟨hdvd, hwf.nameLen_le, hwf.named, le_of_eq hu⟩, show _ + used ≤ _ by omega, ?_⟩
    · have hkeep : Agree (DirBlock.setRecLen (recSpan front) used b)
          (DirBlock.writeEntry (recSpan front + used) ⟨ino, r.recLen - used, name.length, type.code⟩ name
            (DirBlock.setRecLen (recSpan front) used b)) (recSpan front) (recSpan front + used) :=
        DirBlock.agree_writeEntry _ (.inl le_rfl)
      rw [← hshrunk]
      refine hkeep.at_ ?_
      rw [hshrunk]
      dsimp only
      omega
    · refine ⟨DirBlock.at_writeEntry _ rfl hino ?_ hname ?_ ?_, ?_, ?_, ?_⟩
      · exact lt_of_le_of_lt (show r.recLen - used ≤ 4096 by omega) (by decide)
      · exact lt_trans type.code_lt (by decide)
      · omega
      · exact newRec_wf hpos hname (by omega) (by omega)
      · dsimp only [newRec]
        omega
      · dsimp only [newRec, Seg]
        omega
  · intro x hx
    rcases mem_cons.mp hx with rfl | hx
    · exact htype
    · rw [mem_singleton.mp hx]
      exact code_ne_csum type
  · exact (agree_putLE b (.inl (by omega))).trans (DirBlock.agree_writeEntry _ (.inl (by omega)))
  · rw [recSpan_cons, recSpan_nil]
    exact (agree_putLE b (.inr (by omega))).trans (DirBlock.agree_writeEntry _ (.inr (by omega)))

theorem retarget (hlive : ino ≠ 0 → r.nameLen ≠ 0) :
    Formed csum (DirBlock.setFileType (recSpan front) type (DirBlock.setInode (recSpan front) ino b))
      (front ++ { r with ino := ino, fileType := type.code } :: back) := by
  obtain ⟨hat, hwf, hle⟩ := h.at_
  have hpay := payload_le csum
  have hroom := hwf.room
  rw [append_cons] at h ⊢
  refine h.edit ?_ ?_ ?_ ?_
  · rw [recSpan_cons, recSpan_nil, add_zero]
    refine Seg.singleton ?_ ⟨hwf.aligned, hwf.nameLen_le, hlive, hwf.fits⟩
    rw [DirBlock.at_setFileType _ type (by omega), DirBlock.at_setInode b hino (by omega), hat]
  · intro x hx
    rw [mem_singleton.mp hx]
    exact code_ne_csum type
  · exact (agree_putLE b (.inl (by omega))).trans (agree_putLE _ (.inl (by omega)))
  · rw [recSpan_cons, recSpan_nil]
    exact (agree_putLE b (.inr (by omega))).trans (agree_putLE _ (.inr (by omega)))

end

theorem freeFirst (h : Formed csum b ([] ++ [r] ++ back)) :
    Formed csum (DirBlock.setInode 0 0 b) ([] ++ [{ r with ino := 0 }] ++ back) := by
  have hfirst : Formed csum b ([] ++ r :: back) := h
  obtain ⟨hat, hwf, hle⟩ := hfirst.at_
  rw [recSpan_nil] at hat hle
  have hpay := payload_le csum
  have hroom := hwf.room
  have htype := h.untailed r mem_cons_self
  refine h.edit ?_ ?_ (agree_putLE b (.inl le_rfl)) ?_
  · rw [recSpan_cons, recSpan_nil, add_zero]
    refine Seg.singleton ?_ ⟨hwf.aligned, hwf.nameLen_le, fun hne => absurd rfl hne, hwf.fits⟩
    rw [DirBlock.at_setInode b (by decide) (by omega), hat]
  · intro x hx
    rw [mem_singleton.mp hx]
    exact htype
  · rw [recSpan_cons, recSpan_nil]
    exact agree_putLE b (.inr (by omega))

theorem merge {p : Rec} (h : Formed csum b (front ++ p :: r :: back)) :
    Formed csum
      (DirBlock.setInode (recSpan front + p.recLen) 0 (DirBlock.setRecLen (recSpan front) (p.recLen + r.recLen) b))
      (front ++ { p with recLen := p.recLen + r.recLen } :: back) := by
  obtain ⟨hat, hwf, hle⟩ := h.at_
  have hnext : Formed csum b ((front ++ [p]) ++ r :: back) := by simpa using h
  obtain ⟨-, hwfr, hler⟩ := hnext.at_
  rw [recSpan_append, recSpan_cons, recSpan_nil, add_zero] at hler
  have hpay := payload_le csum
  have hroom := hwf.room
  have hroomr := hwfr.room
  have haligned := hwf.aligned
  have halignedr := hwfr.aligned
  have hfits := hwf.fits
  have htype := h.untailed p (mem_append_right _ mem_cons_self)
  have hin : front ++ p :: r :: back = front ++ [p, r] ++ back := by simp
  rw [hin] at h
  rw [append_cons]
  refine h.edit ?_ ?_ ?_ ?_
  · simp only [recSpan_cons, recSpan_nil, add_zero]
    refine Seg.singleton (r := { p with recLen := p.recLen + r.recLen }) ?_
      ⟨?_, hwf.nameLen_le, hwf.named, ?_⟩
    · have hgrown : Rec.at_ (DirBlock.setRecLen (recSpan front) (p.recLen + r.recLen) b)
          (recSpan front) = { p with recLen := p.recLen + r.recLen } := by
        rw [DirBlock.at_setRecLen b (lt_of_le_of_lt (show p.recLen + r.recLen ≤ 4096 by omega)
          (by decide)) (by omega), hat]
      have hkeep : Agree (DirBlock.setRecLen (recSpan front) (p.recLen + r.recLen) b)
          (DirBlock.setInode (recSpan front + p.recLen) 0
            (DirBlock.setRecLen (recSpan front) (p.recLen + r.recLen) b)) (recSpan front)
          (recSpan front + p.recLen) := agree_putLE _ (.inl le_rfl)
      rw [← hgrown]
      refine hkeep.at_ ?_
      rw [hgrown]
      dsimp only
      omega
    · dsimp only
      omega
    · dsimp only
      omega
  · intro x hx
    rw [mem_singleton.mp hx]
    exact htype
  · exact (agree_putLE b (.inl (by omega))).trans (agree_putLE _ (.inl (by omega)))
  · simp only [recSpan_cons, recSpan_nil, add_zero]
    exact (agree_putLE b (.inr (by omega))).trans (agree_putLE _ (.inr (by omega)))

end Formed

def prevOf : Nat → Option Nat → List Rec → Option Nat
  | _, prev, [] => prev
  | cur, _, r :: rest => prevOf (cur + r.recLen) (some cur) rest

theorem prevOf_concat (cur : Nat) (prev : Option Nat) (front : List Rec) (p : Rec) :
    prevOf cur prev (front ++ [p]) = some (cur + recSpan front) := by
  induction front generalizing cur prev with
  | nil => rfl
  | cons r rest ih =>
    rw [cons_append, prevOf, ih, recSpan_cons, add_assoc]

theorem DirBlockView.findPrev_eq {stop : Nat} {front back : List Rec} (hlim : stop ≤ v.limit) {cur fuel : Nat}
    (prev : Option Nat) (hseg : Seg v.block cur stop (front ++ back)) (hfuel : recSpan front < fuel) :
    v.findPrev (cur + recSpan front) fuel cur prev = .ok (prevOf cur prev front) := by
  induction front generalizing cur fuel prev with
  | nil =>
    obtain ⟨fuel, rfl⟩ : ∃ k, fuel = k + 1 := ⟨fuel - 1, by omega⟩
    simp [findPrev, prevOf]
  | cons r rest ih =>
    obtain ⟨hat, hwf, hle, hrest⟩ := hseg
    have hroom := hwf.room
    have hlen : getLE v.block (cur + 4) 2 = r.recLen := by rw [← hat]; rfl
    rw [recSpan_cons] at hfuel ⊢
    obtain ⟨fuel, rfl⟩ : ∃ k, fuel = k + 1 := ⟨fuel - 1, by omega⟩
    have hleft : recSpan rest < fuel := by omega
    have hnext := ih (some cur) hrest hleft
    rw [findPrev, if_pos (by omega)]
    simp only [hlen]
    rw [if_neg (by omega), if_neg (by omega), ← add_assoc, hnext, prevOf]

def lives (recs : List Rec) : List (Name × Nat) := recs.filterMap Rec.live

@[simp] theorem lives_append (a b : List Rec) : lives (a ++ b) = lives a ++ lives b :=
  filterMap_append

theorem lives_cons (r : Rec) (recs : List Rec) : lives (r :: recs) = r.live.toList ++ lives recs := by
  cases hr : r.live with
  | none => simp [lives, hr]
  | some x => simp [lives, hr]

theorem Rec.live_of_ne {r : Rec} (h : r.ino ≠ 0) : r.live = some (r.name, r.ino) := if_neg h

theorem Rec.live_of_eq {r : Rec} (h : r.ino = 0) : r.live = none := if_pos h

theorem Directory.slotAt_cases {nameLen off : Nat} {header : DirEntryHeader}
    (h : slotAt nameLen idx off header v = some slot) :
    header.fileType ≠ ftDirCsum ∧
      ((header.ino = 0 ∧ minRecLen nameLen ≤ header.recLen ∧ slot = ⟨idx * 4096 + off, header.recLen, 0⟩) ∨
        (header.ino ≠ 0 ∧ minRecLen header.nameLen + minRecLen nameLen ≤ header.recLen ∧
          slot = ⟨idx * 4096 + off, header.recLen, minRecLen header.nameLen⟩)) := by
  unfold slotAt at h
  split at h
  · cases h
  next htype =>
    refine ⟨htype, ?_⟩
    by_cases hfree : header.ino = 0
    · simp only [hfree, true_and, ne_eq, not_true, false_and, or_false, if_true] at h
      split at h
      next hfit =>
        cases h
        exact .inl ⟨hfree, hfit, rfl⟩
      next => cases h
    · simp only [hfree, false_and, false_or, ne_eq, not_false_eq_true, true_and, if_false] at h
      split at h
      next hfit =>
        cases h
        exact .inr ⟨hfree, hfit, rfl⟩
      next => cases h

namespace Formed

variable {csum : Bool} {b : Block} {front back : List Rec} {r : Rec}

theorem delete (h : Formed csum b (front ++ r :: back)) :
    ∃ b' recs, DirBlock.deleteEntry ⟨b, 4096⟩ (recSpan front) r.recLen = .ok b' ∧
      Formed csum b' recs ∧ lives recs = lives (front ++ back) := by
  obtain ⟨-, hwf, hle⟩ := h.at_
  have hpay := payload_le csum
  have hroom := hwf.room
  have hchain := h.chain
  rw [withTail, append_assoc] at hchain
  have hprev := DirBlockView.findPrev_eq (v := ⟨b, 4096⟩) (le_refl 4096) none hchain
    (Nat.lt_succ_self (recSpan front))
  rw [zero_add] at hprev
  unfold DirBlock.deleteEntry
  rw [if_neg (by dsimp only; omega)]
  rcases eq_nil_or_concat front with rfl | ⟨init, p, rfl⟩
  · refine ⟨_, _, ?_, freeFirst h, ?_⟩
    · rw [hprev]
      rfl
    · rw [nil_append, singleton_append, lives_cons, Rec.live_of_eq rfl]
      rfl
  · rw [concat_eq_append] at h hprev ⊢
    rw [prevOf_concat, zero_add] at hprev
    rw [append_assoc, singleton_append] at h
    have hmerge := h.merge
    refine ⟨_, _, ?_, hmerge, ?_⟩
    · rw [hprev]
      dsimp only
      rw [recSpan_append, recSpan_cons, recSpan_nil, add_zero]
      congr 3
      omega
    · have hlive : Rec.live { p with recLen := p.recLen + r.recLen } = p.live := rfl
      simp only [lives_append, lives_cons, hlive, append_assoc]
      simp [lives]

theorem place (h : Formed csum b (front ++ r :: back)) (type : DirEntryFileType) (hne : ino ≠ 0)
    (hino : ino < 256 ^ 4) (hpos : name ≠ []) (hname : name.length ≤ nameMax)
    (hslot : slotAt name.length idx (recSpan front) r.header v = some slot) :
    slot.dirOffset / 4096 = idx ∧
      ∃ recs, Formed csum (placeEntry slot name ino type b) recs ∧
        (lives recs).Perm ((name, ino) :: lives (front ++ r :: back)) := by
  obtain ⟨-, hwf, hle⟩ := h.at_
  have hpay := payload_le csum
  have hroom := hwf.room
  have hlive : ∀ k, (newRec name ino type k).live = some (name, ino) := fun k => if_neg hne
  have hused := le_minRecLen r.nameLen
  have hoff : (idx * 4096 + recSpan front) % 4096 = recSpan front := by omega
  have hidx : (idx * 4096 + recSpan front) / 4096 = idx := by omega
  rcases (slotAt_cases hslot).2 with ⟨hfree, hfit, rfl⟩ | ⟨hinuse, hfit, rfl⟩
  · refine ⟨hidx, front ++ newRec name ino type r.recLen :: back, ?_, ?_⟩
    · have hout := h.reuse type hino hpos hname hfit
      simpa only [placeEntry, Rec.header, hoff, ne_eq, not_true, if_false] using hout
    · simp only [lives_append, lives_cons, hlive, Rec.live_of_eq hfree, Option.toList_some,
        Option.toList_none, nil_append, singleton_append]
      exact perm_middle
  · refine ⟨hidx, front ++ { r with recLen := minRecLen r.nameLen } ::
      newRec name ino type (r.recLen - minRecLen r.nameLen) :: back, ?_, ?_⟩
    · have hout := h.split type hino hpos hname hfit
      have hpos' : minRecLen r.header.nameLen ≠ 0 := by
        dsimp only [Rec.header]
        omega
      unfold placeEntry
      dsimp only
      rw [hoff, if_pos hpos']
      exact hout
    · have hkeep : Rec.live { r with recLen := minRecLen r.nameLen } = r.live := rfl
      simp only [lives_append, lives_cons, hlive, hkeep, Option.toList_some, singleton_append, ← append_assoc]
      exact perm_middle

theorem sealTail (h : Formed true b front) (seed : UInt32) : Formed true (DirBlock.sealed seed b) front := by
  have hspan : recSpan front = 4084 := h.recSpan_eq
  have hchain : Seg b 0 4096 (front ++ [Rec.tail] ++ []) := by
    rw [List.append_nil]
    exact h.chain
  have hat : Rec.at_ b 4084 = Rec.tail := by
    have hmid := (Seg.append_iff.mp (Seg.append_iff.mp hchain).1).2
    rw [zero_add, hspan] at hmid
    exact hmid.1
  refine ⟨?_, h.untailed⟩
  have hout : Seg (DirBlock.sealed seed b) 0 4096 (front ++ [Rec.tail] ++ []) := by
    refine hchain.replace ?_ (agree_putLE b (.inl (by omega))) (agree_putLE b (.inr ?_))
    · rw [zero_add, hspan]
      have hkeep : Agree b (DirBlock.sealed seed b) 4084 4092 := agree_putLE b (.inl le_rfl)
      refine Seg.singleton (r := Rec.tail) ?_ Rec.tail_wf
      rw [hkeep.at_ (by rw [hat]; decide), hat]
    · rw [zero_add, hspan]
      decide
  rwa [List.append_nil] at hout

end Formed

def emptyRec (csum : Bool) : Rec := ⟨0, payload csum, 0, DirEntryFileType.unknown.code, []⟩

theorem emptyRec_wf (csum : Bool) : (emptyRec csum).Wf := by
  cases csum <;> exact ⟨by decide, by decide, by decide, by decide⟩

theorem Formed.of_front {csum : Bool} {b : Block} {recs : List Rec} (h : Seg b 0 (payload csum) recs)
    (hu : ∀ r ∈ recs, r.fileType ≠ ftDirCsum) :
    Formed csum (if csum then DirBlock.writeEntry (payload csum) .dirTail [] b else b) recs := by
  refine ⟨?_, hu⟩
  cases csum with
  | false =>
    have hfront : withTail false recs = recs := List.append_nil recs
    rw [hfront]
    exact h
  | true =>
    rw [if_pos rfl]
    have hat : Rec.at_ (DirBlock.writeEntry (payload true) .dirTail [] b) (payload true) = Rec.tail :=
      DirBlock.at_writeEntry _ rfl (by decide) (by decide) (by decide) (by decide) (by decide)
    refine Seg.append_iff.mpr ⟨?_, ?_⟩
    · rw [h.stop_eq]
      exact h.congr (DirBlock.agree_writeEntry b (.inl le_rfl))
    · rw [h.stop_eq]
      exact ⟨hat, Rec.tail_wf, by decide, rfl⟩

theorem fresh_formed (csum : Bool) :
    Formed csum (DirBlock.fresh (payload csum) csum) [emptyRec csum] := by
  have hhead : Rec.at_ (DirBlock.writeEntry 0 ⟨0, payload csum, 0, DirEntryFileType.unknown.code⟩ []
      (zeros 4096)) 0 = emptyRec csum :=
    DirBlock.at_writeEntry _ rfl (by decide +revert)
      (lt_of_le_of_lt (payload_le csum) (by decide)) (by decide) (by decide +revert) (by decide)
  refine .of_front ⟨hhead, emptyRec_wf csum, le_of_eq (zero_add _), zero_add _⟩ fun r hr => ?_
  rw [mem_singleton.mp hr]
  exact (by decide : DirEntryFileType.unknown.code ≠ ftDirCsum)

end Ext4
