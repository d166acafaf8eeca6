import Ext4.Base.Bits
import Ext4.Journal.Format

namespace Ext4

open Bytes List Option

structure IdRange where
  start : Nat
  stop : Nat
  deriving DecidableEq

variable {r : IdRange} {i lo : Nat}

namespace IdRange

def len (r : IdRange) : Nat := r.stop - r.start

def contains (r : IdRange) (i : Nat) : Bool := r.start ≤ i && i < r.stop

def overlaps (pin candidate : IdRange) : Bool :=
  pin.start < candidate.stop && candidate.start < pin.stop

theorem contains_iff : r.contains i = true ↔ r.start ≤ i ∧ i < r.stop := by
  simp [contains]

end IdRange

def firstFree (buf : Block) (lo len : Nat) : Nat :=
  ((List.range' lo (len - lo)).find? fun i => !bitAt buf i).getD len

theorem firstFree_spec (buf : Block) {len : Nat} (h : lo ≤ len) :
    lo ≤ firstFree buf lo len ∧ firstFree buf lo len ≤ len ∧
      (∀ i, lo ≤ i → i < firstFree buf lo len → bitAt buf i = true) ∧
      (firstFree buf lo len < len → bitAt buf (firstFree buf lo len) = false) := by
  unfold firstFree
  cases hf : (range' lo (len - lo)).find? fun i => !bitAt buf i with
  | none =>
    have hall := find?_eq_none.mp hf
    refine ⟨h, le_refl len, fun i hlo hi => ?_, fun hlt => absurd hlt (lt_irrefl len)⟩
    have hi' : i < len := hi
    simpa using hall i (List.mem_range'_1.mpr (by omega))
  | some k =>
    have hk := List.mem_range'_1.mp (mem_of_find?_eq_some hf)
    have hclear := find?_some hf
    refine ⟨hk.1, ?_, fun i hlo hi => ?_, fun _ => by simpa using hclear⟩
    · simp only [getD_some]
      omega
    · obtain ⟨_, as, bs, happ, hbefore⟩ := find?_eq_some_iff_append.mp hf
      have hi' : i < k := hi
      have hmem : i ∈ as ++ k :: bs := by
        rw [← happ]
        exact List.mem_range'_1.mpr (by omega)
      have hsorted : (as ++ k :: bs).Pairwise (· < ·) := by
        rw [← happ]
        exact pairwise_lt_range'
      rcases mem_append.mp hmem with hm | hm
      · simpa using hbefore i hm
      · rcases mem_cons.mp hm with rfl | hm
        · exact absurd hi' (lt_irrefl i)
        · have hlt := rel_of_pairwise_cons (pairwise_append.mp hsorted).2.1 hm
          omega

structure IdBitmap where
  buf : Block
  firstAvailableId : Nat
  len : Nat
  len_le : len ≤ 32768
  first_le : firstAvailableId ≤ len
  used_below : ∀ i < firstAvailableId, bitAt buf i = true
  first_free : firstAvailableId < len → bitAt buf firstAvailableId = false

namespace IdBitmap

variable {buf : Block} {count : Nat} {bm bm' : IdBitmap} {len : Nat}

def fromBuf (buf : Block) (len : Nat) (h : len ≤ 32768) : IdBitmap where
  buf := buf
  firstAvailableId := firstFree buf 0 len
  len := len
  len_le := h
  first_le := (firstFree_spec buf (Nat.zero_le len)).2.1
  used_below i hi := (firstFree_spec buf (Nat.zero_le len)).2.2.1 i (Nat.zero_le i) hi
  first_free := (firstFree_spec buf (Nat.zero_le len)).2.2.2

def asBytes (bm : IdBitmap) : Block := bm.buf

def isAllocated (bm : IdBitmap) (id : Nat) : Bool := bitAt bm.buf id

theorem ext_isAllocated {a b : IdBitmap} (hlen : a.len = b.len)
    (h : ∀ i, a.isAllocated i = b.isAllocated i) : a = b := by
  have hbuf : a.buf = b.buf := ext_bitAt fun i _ => h i
  have hfirst : a.firstAvailableId = b.firstAvailableId := by
    rcases Nat.lt_trichotomy a.firstAvailableId b.firstAvailableId with hlt | heq | hgt
    · have hset := b.used_below _ hlt
      have hclear := a.first_free (by have := b.first_le; omega)
      rw [← hbuf, hclear] at hset
      cases hset
    · exact heq
    · have hset := a.used_below _ hgt
      have hclear := b.first_free (by have := a.first_le; omega)
      rw [hbuf, hclear] at hset
      cases hset
  cases a
  cases b
  simp only at hlen hbuf hfirst
  subst hlen hbuf hfirst
  rfl

theorem bit_lt (bm : IdBitmap) (h : i < bm.len) : i < 8 * 4096 := by
  have := bm.len_le
  omega

def free (bm : IdBitmap) (id : Nat) : IdBitmap :=
  { bm with
    buf := setBit bm.buf id false
    firstAvailableId := if id < bm.firstAvailableId then id else bm.firstAvailableId
    first_le := by
      have := bm.first_le
      split_ifs <;> omega
    used_below := by
      intro i hi
      have hlt : i < bm.firstAvailableId ∧ i ≠ id := by split_ifs at hi <;> omega
      rw [bitAt_setBit_ne _ _ hlt.2]
      exact bm.used_below i hlt.1
    first_free := by
      intro hlt
      split_ifs at hlt ⊢ with h
      · rw [bitAt_setBit _ _ (bm.bit_lt hlt), if_pos rfl]
      · rcases eq_or_ne bm.firstAvailableId id with heq | hne
        · rw [← heq, bitAt_setBit _ _ (bm.bit_lt hlt), if_pos rfl]
        · rw [bitAt_setBit_ne _ _ hne, bm.first_free hlt] }

def freeConsecutive (bm : IdBitmap) (r : IdRange) : IdBitmap :=
  if hr : r.stop ≤ r.start then bm
  else
    { bm with
      buf := setBits bm.buf r.start r.len false
      firstAvailableId := if r.start < bm.firstAvailableId then r.start else bm.firstAvailableId
      first_le := by
        have := bm.first_le
        split_ifs <;> omega
      used_below := by
        intro i hi
        have hlt : i < bm.firstAvailableId ∧ i < r.start := by split_ifs at hi <;> omega
        rw [bitAt_setBits_not_mem _ _ (.inl hlt.2)]
        exact bm.used_below i hlt.1
      first_free := by
        intro hlt
        have hpos : 0 < r.len := Nat.sub_pos_of_lt (Nat.lt_of_not_le hr)
        split_ifs at hlt ⊢ with h
        · exact bitAt_setBits_mem _ _ (bm.bit_lt hlt) (Nat.le_refl _) (by omega)
        · rcases Nat.eq_or_lt_of_le (Nat.le_of_not_lt h) with heq | hbefore
          · exact bitAt_setBits_mem _ _ (bm.bit_lt hlt) (Nat.le_of_eq heq.symm) (by omega)
          · rw [bitAt_setBits_not_mem _ _ (.inl hbefore), bm.first_free hlt] }

def markUsed (bm : IdBitmap) (r : IdRange) (hpos : r.start < r.stop) (hle : r.stop ≤ bm.len)
    (hfirst : bm.firstAvailableId ≤ r.start) : IdBitmap :=
  let buf := setBits bm.buf r.start r.len true
  { bm with
    buf := buf
    firstAvailableId := if bitAt buf bm.firstAvailableId then firstFree buf r.stop bm.len
      else bm.firstAvailableId
    first_le := by
      split_ifs
      · exact (firstFree_spec buf hle).2.1
      · exact bm.first_le
    used_below := by
      have hlen : r.start + r.len = r.stop := by unfold IdRange.len; omega
      have hlow : ∀ i < bm.firstAvailableId, bitAt buf i = true := fun i hi => by
        rw [bitAt_setBits_not_mem _ _ (.inl (by omega))]
        exact bm.used_below i hi
      intro i hi
      split_ifs at hi with hset
      · by_cases hlo : i < bm.firstAvailableId
        · exact hlow i hlo
        · by_cases hin : i < r.stop
          · have hstart : r.start = bm.firstAvailableId := by
              by_contra hne
              rw [bitAt_setBits_not_mem _ _ (.inl (by omega)), bm.first_free (by omega)] at hset
              cases hset
            exact bitAt_setBits_mem _ _ (bm.bit_lt (by omega)) (by omega) (by omega)
          · exact (firstFree_spec buf hle).2.2.1 i (Nat.le_of_not_lt hin) hi
      · exact hlow i hi
    first_free := by
      intro hlt
      split_ifs at hlt ⊢ with hset
      · exact (firstFree_spec buf hle).2.2.2 hlt
      · exact Bool.eq_false_iff.mpr hset }

def alloc (bm : IdBitmap) : Option Nat × IdBitmap :=
  if h : bm.firstAvailableId < bm.len then
    (some bm.firstAvailableId,
      bm.markUsed ⟨bm.firstAvailableId, bm.firstAvailableId + 1⟩ (Nat.lt_succ_self _) h (Nat.le_refl _))
  else (none, bm)

section

variable (bm : IdBitmap)

theorem isAllocated_free {id : Nat} (h : id < bm.len) (i : Nat) :
    (bm.free id).isAllocated i = if i = id then false else bm.isAllocated i :=
  bitAt_setBit _ _ (bm.bit_lt h)

theorem isAllocated_setBits (hpos : r.start ≤ r.stop) (hle : r.stop ≤ bm.len) (v : Bool) (i : Nat) :
    bitAt (setBits bm.buf r.start r.len v) i = if r.contains i then v else bm.isAllocated i := by
  have hlen : r.start + r.len = r.stop := by unfold IdRange.len; omega
  by_cases hi : r.contains i = true
  · have hin := IdRange.contains_iff.mp hi
    rw [if_pos hi]
    exact bitAt_setBits_mem _ _ (bm.bit_lt (by omega)) hin.1 (by omega)
  · rw [if_neg hi]
    rw [IdRange.contains_iff] at hi
    exact bitAt_setBits_not_mem _ _ (by omega)

theorem isAllocated_freeConsecutive (h : r.stop ≤ bm.len) (i : Nat) :
    (bm.freeConsecutive r).isAllocated i = if r.contains i then false else bm.isAllocated i := by
  by_cases hr : r.stop ≤ r.start
  · have hno : ¬r.contains i = true := fun hi => by
      have := IdRange.contains_iff.mp hi
      omega
    rw [freeConsecutive, dif_pos hr, if_neg hno]
  · rw [freeConsecutive, dif_neg hr]
    exact bm.isAllocated_setBits (Nat.le_of_not_le hr) h false i

@[simp] theorem len_free (id : Nat) : (bm.free id).len = bm.len := rfl

@[simp] theorem len_freeConsecutive (r : IdRange) :
    (bm.freeConsecutive r).len = bm.len := by
  unfold freeConsecutive
  split <;> rfl

end

-- grows `r` over clear bits, and starts over behind a set one
def scan (buf : Block) (len count : Nat) : Nat → IdRange → IdRange
  | 0, r => r
  | fuel + 1, r =>
    if r.len < count ∧ r.stop < len then
      if bitAt buf r.stop then scan buf len count fuel ⟨r.stop + 1, r.stop + 1⟩
      else scan buf len count fuel ⟨r.start, r.stop + 1⟩
    else r

structure ClearRun (buf : Block) (lo len count : Nat) (r : IdRange) : Prop where
  lo_le : lo ≤ r.start
  le : r.start ≤ r.stop
  stop_le : r.stop ≤ len
  len_le : r.len ≤ count
  clear : ∀ i, r.contains i = true → bitAt buf i = false

theorem scan_clear (fuel : Nat)
    (h : ClearRun buf lo len count r) : ClearRun buf lo len count (scan buf len count fuel r) := by
  induction fuel generalizing r with
  | zero => exact h
  | succ fuel ih =>
    have hlo := h.lo_le
    have hle := h.le
    unfold scan
    split_ifs with hmore hset
    · refine ih ⟨by simp only; omega, le_rfl, hmore.2, ?_, fun i hi => ?_⟩
      · simp [IdRange.len]
      · have := IdRange.contains_iff.mp hi
        simp only at this
        omega
    · refine ih ⟨hlo, by simp only; omega, hmore.2, ?_, fun i hi => ?_⟩
      · have := hmore.1
        simp only [IdRange.len] at this ⊢
        omega
      · obtain ⟨hge, hlt⟩ := IdRange.contains_iff.mp hi
        simp only at hge hlt
        rcases eq_or_lt_of_le (Nat.le_of_lt_succ hlt) with heq | hin
        · rw [heq]
          exact Bool.eq_false_iff.mpr hset
        · exact h.clear i (IdRange.contains_iff.mpr ⟨hge, hin⟩)
    · exact h

theorem scan_settles (fuel : Nat) (r : IdRange) (h : len ≤ r.stop + fuel) :
    count ≤ (scan buf len count fuel r).len ∨ len ≤ (scan buf len count fuel r).stop := by
  induction fuel generalizing r with
  | zero => exact .inr h
  | succ fuel ih =>
    unfold scan
    split_ifs with hmore hset
    · exact ih _ (by simp only; omega)
    · exact ih _ (by simp only; omega)
    · omega

theorem clearRun_first (bm : IdBitmap) (hcount : count ≠ 0) (h : bm.firstAvailableId + count ≤ bm.len) :
    ClearRun bm.buf bm.firstAvailableId bm.len count
      ⟨bm.firstAvailableId, bm.firstAvailableId + 1⟩ where
  lo_le := le_rfl
  le := Nat.le_succ _
  stop_le := by
    simp only
    omega
  len_le := by
    simp only [IdRange.len]
    omega
  clear i hi := by
    have hrange := IdRange.contains_iff.mp hi
    simp only at hrange
    have hi : i = bm.firstAvailableId := by omega
    rw [hi]
    exact bm.first_free (by omega)

def candidate (bm : IdBitmap) (count : Nat) : IdRange :=
  scan bm.buf bm.len count bm.len ⟨bm.firstAvailableId, bm.firstAvailableId + 1⟩

theorem candidate_clear (bm : IdBitmap) (hcount : count ≠ 0) (h : bm.firstAvailableId + count ≤ bm.len) :
    ClearRun bm.buf bm.firstAvailableId bm.len count (bm.candidate count) :=
  scan_clear bm.len (bm.clearRun_first hcount h)

theorem candidate_settles (bm : IdBitmap) (count : Nat) :
    count ≤ (bm.candidate count).len ∨ bm.len ≤ (bm.candidate count).stop :=
  scan_settles bm.len _ (by simp only; omega)

def allocConsecutive (bm : IdBitmap) (count : Nat) : Option IdRange × IdBitmap :=
  if hcount : count = 0 then (none, bm)
  else if hfit : bm.firstAvailableId + count ≤ bm.len then
    if hlen : (bm.candidate count).len < count then (none, bm)
    else
      (some (bm.candidate count), bm.markUsed (bm.candidate count)
        (Nat.lt_of_sub_pos (Nat.lt_of_lt_of_le (Nat.pos_of_ne_zero hcount) (Nat.le_of_not_lt hlen)))
        (bm.candidate_clear hcount hfit).stop_le (bm.candidate_clear hcount hfit).lo_le)
  else (none, bm)

structure Claims (bm : IdBitmap) (count : Nat) (r : IdRange) (bm' : IdBitmap) : Prop where
  count_pos : 0 < count
  stop : r.stop = r.start + count
  le : r.stop ≤ bm.len
  clear : ∀ i, r.contains i = true → bm.isAllocated i = false
  len : bm'.len = bm.len
  bits : ∀ i, bm'.isAllocated i = if r.contains i then true else bm.isAllocated i

theorem allocConsecutive_some (h : bm.allocConsecutive count = (some r, bm')) : bm.Claims count r bm' := by
  unfold allocConsecutive at h
  split at h
  · cases h
  next hcount =>
    split at h
    next hfit =>
      split at h
      · cases h
      next hlen =>
        cases h
        have hrun := bm.candidate_clear hcount hfit
        have hcl := hrun.len_le
        have hle := hrun.le
        refine ⟨pos_of_ne_zero hcount, ?_, hrun.stop_le, hrun.clear, rfl, fun i => ?_⟩
        · unfold IdRange.len at hcl hlen
          omega
        · exact bm.isAllocated_setBits hle hrun.stop_le true i
    · cases h

theorem allocConsecutive_none (h : bm.allocConsecutive count = (none, bm')) : bm' = bm := by
  unfold allocConsecutive at h
  split at h
  · cases h
    rfl
  · split at h
    · split at h
      · cases h
        rfl
      · cases h
    · cases h
      rfl

def FreeRun (buf : Block) (len count start : Nat) : Prop :=
  0 < count ∧ start + count ≤ len ∧ ∀ i, start ≤ i → i < start + count → bitAt buf i = false

theorem scan_least (fuel : Nat) (hr : r.start ≤ r.stop) (h : ∀ s < r.start, ¬FreeRun buf len count s) :
    ∀ s < (scan buf len count fuel r).start, ¬FreeRun buf len count s := by
  induction fuel generalizing r with
  | zero => exact h
  | succ fuel ih =>
    unfold scan
    split_ifs with hmore hset
    · refine ih le_rfl fun s hs hfree => ?_
      by_cases hlt : s < r.start
      · exact h s hlt hfree
      · have hshort := hmore.1
        unfold IdRange.len at hshort
        have hclear := hfree.2.2 r.stop (Nat.le_of_lt_succ hs) (by omega)
        rw [hset] at hclear
        cases hclear
    · exact ih (Nat.le_succ_of_le hr) h
    · exact h

theorem no_freeRun_below (bm : IdBitmap) {s : Nat} (hs : s < bm.firstAvailableId) : ¬FreeRun bm.buf bm.len count s :=
  fun hfree => by
    have hclear := hfree.2.2 s (le_refl s) (Nat.lt_add_of_pos_right hfree.1)
    rw [bm.used_below s hs] at hclear
    cases hclear

theorem candidate_least (bm : IdBitmap) (count : Nat) :
    ∀ s < (bm.candidate count).start, ¬FreeRun bm.buf bm.len count s :=
  scan_least bm.len (Nat.le_succ _) fun _ hs => bm.no_freeRun_below hs

theorem allocConsecutive_least (h : bm.allocConsecutive count = (some r, bm')) :
    ∀ s < r.start, ¬FreeRun bm.buf bm.len count s := by
  unfold allocConsecutive at h
  split at h
  · cases h
  · split at h
    · split at h
      · cases h
      · cases h
        exact bm.candidate_least count
    · cases h

theorem allocConsecutive_full (h : bm.allocConsecutive count = (none, bm')) (s : Nat) :
    ¬FreeRun bm.buf bm.len count s := by
  intro hfree
  have hfirst : bm.firstAvailableId ≤ s := Nat.le_of_not_lt fun hs => bm.no_freeRun_below hs hfree
  unfold allocConsecutive at h
  split at h
  next hzero => exact absurd hzero (Nat.pos_iff_ne_zero.mp hfree.1)
  · split at h
    next hfit =>
      split at h
      next hshort =>
        have hstart : (bm.candidate count).start ≤ s := Nat.le_of_not_lt fun hs => bm.candidate_least count s hs hfree
        have hstop := (bm.candidate_settles count).resolve_left (not_le.mpr hshort)
        have hend := hfree.2.1
        unfold IdRange.len at hshort
        omega
      · cases h
    next hfit => exact hfit (le_trans (Nat.add_le_add_right hfirst count) hfree.2.1)

inductive Call where
  | alloc
  | allocConsecutive (count : Nat)
  | free (id : Nat)
  | freeConsecutive (r : IdRange)

-- an index outside the bitmap panics
def Call.run (bm : IdBitmap) : Call → Option IdBitmap
  | .alloc => some bm.alloc.2
  | .allocConsecutive count => some (bm.allocConsecutive count).2
  | .free id => if id < bm.len then some (bm.free id) else none
  | .freeConsecutive r => if r.stop ≤ r.start ∨ r.stop ≤ bm.len then some (bm.freeConsecutive r) else none

theorem Call.run_len {c : Call} (h : c.run bm = some bm') : bm'.len = bm.len := by
  cases c with
  | alloc =>
    cases h
    unfold IdBitmap.alloc
    split <;> rfl
  | allocConsecutive count =>
    cases h
    cases hrun : bm.allocConsecutive count with
    | mk res after =>
      cases res with
      | none => exact congrArg len (allocConsecutive_none hrun)
      | some r => exact (allocConsecutive_some hrun).len
  | free id =>
    simp only [run, ite_none_right_eq_some, some.injEq] at h
    obtain ⟨-, rfl⟩ := h
    rfl
  | freeConsecutive r =>
    simp only [run, ite_none_right_eq_some, some.injEq] at h
    obtain ⟨-, rfl⟩ := h
    exact len_freeConsecutive bm r

theorem run_calls_len {calls : List Call} (h : calls.foldlM Call.run bm = some bm') : bm'.len = bm.len := by
  induction calls generalizing bm with
  | nil =>
    cases h
    rfl
  | cons c calls ih =>
    obtain ⟨mid, hc, hrest⟩ := bind_eq_some_iff.mp h
    exact (ih hrest).trans (Call.run_len hc)

theorem first_fit_search (buf : Block) {len : Nat} (hlen : len ≤ 32768) (calls : List Call)
    (h : calls.foldlM Call.run (fromBuf buf len hlen) = some bm) :
    bm.firstAvailableId ≤ len ∧ (∀ i < bm.firstAvailableId, bm.isAllocated i = true) ∧
    (bm.firstAvailableId < len → bm.isAllocated bm.firstAvailableId = false) ∧
    ∀ count,
      (∀ r bm', bm.allocConsecutive count = (some r, bm') →
        r.stop = r.start + count ∧ FreeRun bm.buf len count r.start ∧ (∀ s < r.start, ¬FreeRun bm.buf len count s) ∧
        ∀ i, bm'.isAllocated i = if r.contains i then true else bm.isAllocated i) ∧
      ∀ bm', bm.allocConsecutive count = (none, bm') → bm' = bm ∧ ∀ s, ¬FreeRun bm.buf len count s := by
  obtain rfl : bm.len = len := run_calls_len h
  refine ⟨bm.first_le, bm.used_below, bm.first_free, fun count => ⟨fun r bm' hrun => ?_, fun bm' hrun => ?_⟩⟩
  · have hclaims := allocConsecutive_some hrun
    have hstop := hclaims.stop
    refine ⟨hstop, ⟨hclaims.count_pos, hstop ▸ hclaims.le, fun i hlo hhi => ?_⟩, allocConsecutive_least hrun,
      hclaims.bits⟩
    exact hclaims.clear i (IdRange.contains_iff.mpr ⟨hlo, hstop ▸ hhi⟩)
  · exact ⟨allocConsecutive_none hrun, allocConsecutive_full hrun⟩

theorem first_fit_search_refilled : ∃ bm, [Call.alloc, .allocConsecutive 2, .free 0].foldlM Call.run
    (fromBuf (Bytes.zeros _) 4 (by decide)) = some bm ∧ ∀ i < bm.firstAvailableId, bm.isAllocated i = true :=
  ⟨_, rfl, (first_fit_search (Bytes.zeros _) (show 4 ≤ 32768 by decide) [.alloc, .allocConsecutive 2, .free 0] rfl).2.1⟩

end IdBitmap

end Ext4
