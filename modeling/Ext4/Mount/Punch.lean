import Ext4.Extent.Edits

namespace Ext4

structure PunchHole where
  zeroed : List (Nat × Nat)
  full : Option (Nat × Nat)
  deriving DecidableEq

namespace PunchHole

variable (mapped : Nat → Bool)

def zeroPartialBlock (start stop : Nat) : Except Fault (List (Nat × Nat)) :=
  if stop ≤ start then .ok []
  else if 2 ^ 32 ≤ start / 4096 then .error (.error .efbig "punch edge beyond 32-bit block space")
  else .ok (if mapped (start / 4096) then [(start, stop)] else [])

def zeroIf (c : Prop) [Decidable c] (start stop : Nat) : Except Fault (List (Nat × Nat)) :=
  if c then zeroPartialBlock mapped start stop else .ok []

def zeroEdges (offset stop alignedStart alignedEnd : Nat) : Except Fault (List (Nat × Nat)) :=
  if offset / 4096 = (stop - 1) / 4096 then
    zeroIf mapped (offset < alignedStart ∨ alignedEnd < stop) offset stop
  else do
    let head ← zeroIf mapped (offset < alignedStart) offset alignedStart
    let tail ← zeroIf mapped (alignedEnd < stop) alignedEnd stop
    .ok (head ++ tail)

def fullBlocks (alignedStart alignedEnd : Nat) : Except Fault (Option (Nat × Nat)) :=
  if alignedStart < alignedEnd then
    if 2 ^ 32 ≤ alignedStart / 4096 ∨ 2 ^ 32 ≤ alignedEnd / 4096 then
      .error (.error .efbig "block index exceeds 32 bits")
    else .ok (some (alignedStart / 4096, alignedEnd / 4096))
  else .ok none

def punchHole (size offset len : Nat) : Except Fault PunchHole :=
  if size ≤ offset then .ok ⟨[], none⟩
  else if 2 ^ 64 ≤ offset + len then .error (.error .einval "punch range overflow")
  else
    let stop := min (offset + len) size
    if stop ≤ offset then .ok ⟨[], none⟩
    else do
      let alignedStart := (offset + 4095) / 4096 * 4096
      let alignedEnd := stop / 4096 * 4096
      let zeroed ← zeroEdges mapped offset stop alignedStart alignedEnd
      let full ← fullBlocks alignedStart alignedEnd
      .ok ⟨zeroed, full⟩

def pieces (p : PunchHole) : List (Nat × Nat) :=
  p.zeroed ++ p.full.toList.map fun r => (r.1 * 4096, r.2 * 4096)

def hits (x : Nat) (pieces : List (Nat × Nat)) : Nat := pieces.countP fun r => r.1 ≤ x && x < r.2

theorem hits_append (x : Nat) (l l' : List (Nat × Nat)) : hits x (l ++ l') = hits x l + hits x l' :=
  List.countP_append

section Cover

variable {mapped} {lo hi offset stop : Nat} {c : Prop} [Decidable c]

def piece (c : Prop) [Decidable c] (lo hi : Nat) : List (Nat × Nat) := if c then [(lo, hi)] else []

-- within one block, which is mapped
theorem hits_piece {x : Nat} (hone : c → lo / 4096 = (hi - 1) / 4096) (hx : mapped (x / 4096) = true) :
    hits x (piece (c ∧ mapped (lo / 4096) = true) lo hi) = if c ∧ lo ≤ x ∧ x < hi then 1 else 0 := by
  have hiff : c ∧ lo ≤ x ∧ x < hi ↔ (c ∧ mapped (lo / 4096) = true) ∧ lo ≤ x ∧ x < hi := by
    refine ⟨fun h => ⟨⟨h.1, ?_⟩, h.2⟩, fun h => ⟨h.1.1, h.2⟩⟩
    have hblock : lo / 4096 = x / 4096 := by
      have := hone h.1
      omega
    rwa [hblock]
  rw [if_congr hiff rfl rfl]
  unfold piece hits
  split_ifs <;> simp_all

theorem mem_piece {r : Nat × Nat} (h : r ∈ piece c lo hi) : c ∧ r = (lo, hi) := by
  unfold piece at h
  split at h
  next hc => exact ⟨hc, List.mem_singleton.mp h⟩
  next => cases h

theorem zeroIf_ok (hlt : c → lo < hi) (hfit : lo / 4096 < 2 ^ 32) :
    zeroIf mapped c lo hi = .ok (piece (c ∧ mapped (lo / 4096) = true) lo hi) := by
  unfold zeroIf piece
  by_cases hc : c
  · rw [if_pos hc, zeroPartialBlock, if_neg (not_le.mpr (hlt hc)), if_neg (not_le.mpr hfit)]
    simp only [hc, true_and]
  · rw [if_neg hc, if_neg fun h => hc h.1]

theorem zeroEdges_ok (mapped : Nat → Bool) (hlt : offset < stop) (hfit : stop < 2 ^ 44) :
    ∃ zeroed, zeroEdges mapped offset stop ((offset + 4095) / 4096 * 4096) (stop / 4096 * 4096) = .ok zeroed ∧
      (∀ r ∈ zeroed, r.1 < r.2 ∧ r.1 / 4096 = (r.2 - 1) / 4096 ∧ offset ≤ r.1 ∧ r.2 ≤ stop) ∧
      ∀ x, mapped (x / 4096) = true → hits x zeroed = if offset ≤ x ∧ x < stop ∧
        ¬((offset + 4095) / 4096 ≤ x / 4096 ∧ x / 4096 < stop / 4096) then 1 else 0 := by
  unfold zeroEdges
  split
  next hone =>
    refine ⟨_, zeroIf_ok (fun _ => hlt) (by omega), fun r hr => ?_, fun x hx => ?_⟩
    · obtain ⟨-, rfl⟩ := mem_piece hr
      exact ⟨hlt, hone, le_rfl, le_rfl⟩
    · rw [hits_piece (fun _ => hone) hx]
      split_ifs <;> omega
  next hone =>
    rw [zeroIf_ok id (by omega), zeroIf_ok id (by omega)]
    refine ⟨_, rfl, fun r hr => ?_, fun x hx => ?_⟩
    · rcases List.mem_append.mp hr with hr | hr
      all_goals
        obtain ⟨⟨hpart, -⟩, rfl⟩ := mem_piece hr
        refine ⟨hpart, ?_, ?_, ?_⟩ <;> dsimp only <;> omega
    · rw [hits_append, hits_piece (fun _ => by omega) hx, hits_piece (fun _ => by omega) hx]
      split_ifs <;> omega

theorem fullBlocks_ok (offset : Nat) (hfit : stop < 2 ^ 44) :
    ∃ full, fullBlocks ((offset + 4095) / 4096 * 4096) (stop / 4096 * 4096) = .ok full ∧
      (∀ r ∈ full, r.1 < r.2 ∧ offset ≤ r.1 * 4096 ∧ r.2 * 4096 ≤ stop) ∧
      ∀ x, hits x (full.toList.map fun r => (r.1 * 4096, r.2 * 4096)) =
        if (offset + 4095) / 4096 ≤ x / 4096 ∧ x / 4096 < stop / 4096 then 1 else 0 := by
  unfold fullBlocks
  split
  next hlt =>
    rw [if_neg (by omega), Nat.mul_div_cancel _ (by decide), Nat.mul_div_cancel _ (by decide)]
    refine ⟨_, rfl, fun r hr => ?_, fun x => ?_⟩
    · cases hr
      dsimp only
      omega
    · simp only [hits, Option.toList_some, List.map_cons, List.map_nil, List.countP_singleton, Bool.and_eq_true,
        decide_eq_true_eq]
      refine if_congr ?_ rfl rfl
      omega
  next hge =>
    refine ⟨none, rfl, fun r hr => (nomatch hr), fun x => ?_⟩
    rw [if_neg (by omega)]
    rfl

end Cover

structure Covers (mapped : Nat → Bool) (offset stop : Nat) (p : PunchHole) : Prop where
  exact_once : ∀ x, mapped (x / 4096) = true → hits x p.pieces = if offset ≤ x ∧ x < stop then 1 else 0
  one_block : ∀ r ∈ p.zeroed, r.1 < r.2 ∧ r.1 / 4096 = (r.2 - 1) / 4096 ∧ offset ≤ r.1 ∧ r.2 ≤ stop
  freed_inside : ∀ r ∈ p.full, ∀ e : Extent, ∀ a ∈ e.punchDoomed r.1 r.2,
    offset ≤ a.block * 4096 ∧ a.stop * 4096 ≤ stop

theorem covers_nothing (mapped : Nat → Bool) {offset stop : Nat} (h : stop ≤ offset) :
    Covers mapped offset stop ⟨[], none⟩ := by
  refine ⟨fun x _ => ?_, fun r hr => (nomatch hr), fun r hr => (nomatch hr)⟩
  rw [if_neg (by omega)]
  rfl

end PunchHole

end Ext4
