import Ext4.Extent.Converge

namespace Ext4

def Fs.wholeTruncateCreditBound (fs : Fs) (externalNodes freedExtents revokeEntriesPerBlock : Nat) : Nat :=
  let perBlock := max revokeEntriesPerBlock 1
  let revokeBlocks := (externalNodes + perBlock - 1) / perBlock
  fs.reserializeCredits externalNodes + min freedExtents fs.sb.nrBlockGroups +
    min freedExtents fs.nrGdtBlocks + revokeBlocks + Fs.inodeDescCredits

structure ShrinkPlan where
  wholeEstimate : Nat
  floorEfbig : Bool

def planShrink (g : JournalGeometry) (newSize maxCredits : Nat) : TreeOp ShrinkPlan :=
  if 2 ^ 32 ≤ blocksOf newSize then Op.fail (.error .efbig "block index exceeds 32 bits")
  else do
    let (extents, _) ← TreeFs.flatten
    let s ← Op.get
    let external := externalNodeCount extents.length
    let freedExtents := extents.countP fun e => blocksOf newSize < e.block + e.len
    let revokePerBlock := (s.fs.journal.map fun _ => g.tagLayout.revokeEntriesPerBlock).getD 1
    Op.ret ⟨s.fs.wholeTruncateCreditBound external freedExtents revokePerBlock, 0 < freedExtents &&
        maxCredits < Fs.extentFreeCredits + s.fs.truncateChunkCredits external⟩

section Plan

variable {s s' s1 : TreeFs} {extents extents1 : List Extent} {external : List Nat} {newSize maxCredits lo hi : Nat}
  {plan : ShrinkPlan} {g : JournalGeometry} {csumSeed : Option UInt32} {policy : DataForgetPolicy}

theorem countP_past (hs : Sound extents) (keep : Nat) :
    (extents.countP fun e => keep < e.block + e.len) = owing keep (2 ^ 32) extents := by
  refine List.countP_congr fun e he => ?_
  have hv := hs.valid e he
  have hstop := hv.stop_le
  have hpos := hv.pos
  simp only [Extent.stop] at hstop
  simp only [Extent.outside, Bool.not_eq_true', Bool.or_eq_false_iff, decide_eq_false_iff_not, decide_eq_true_eq]
  omega

theorem planShrink_ends (h : Shaped s.fs.image s.tree.root extents external) (hs : Sound extents)
    (newSize maxCredits : Nat) :
    (planShrink g newSize maxCredits).Ends s
      (fun plan s' => s' = s ∧ blocksOf newSize < 2 ^ 32 ∧ (plan.floorEfbig = true ↔
        owing (blocksOf newSize) (2 ^ 32) extents ≠ 0 ∧ maxCredits < truncateNeed s.fs extents))
      fun _ s' => s' = s := by
  unfold planShrink
  split
  · exact .fail rfl
  next hfit =>
    refine .bind_of_eq (TreeFs.flatten_eq h) (.bind_get (.ret ⟨rfl, not_le.mp hfit, ?_⟩))
    simp only [countP_past hs, Bool.and_eq_true, decide_eq_true_eq, Nat.pos_iff_ne_zero, truncateNeed]

theorem keepBlocks_eq (h : blocksOf newSize < 2 ^ 32) : keepBlocks newSize = blocksOf newSize :=
  Nat.mod_eq_of_lt h

theorem truncateChunk_floor (h : Stands s extents external) {limit : Nat}
    (hlimit : limit < truncateNeed s.fs extents) (hwork : owing (keepBlocks newSize) (2 ^ 32) extents ≠ 0) :
    truncateChunk g csumSeed policy newSize (some limit) s = (.error truncateTooWide, s) := by
  have hfloor : (some limit).any (fun l => decide (l < Fs.extentFreeCredits +
      s.fs.truncateChunkCredits (externalNodeCount extents.length))) = true := decide_eq_true hlimit
  unfold truncateChunk
  rw [Op.bind_ok h.flatten]
  dsimp only
  rw [Op.get_bind, h.ordered.sortByBlock, if_pos ⟨hfloor, (work_iff h.sound h.ordered _).mpr hwork⟩]
  rfl

theorem truncateChunk_idle {csumSeed : Option UInt32} {policy : DataForgetPolicy} {limit : Option Nat}
    {delta : TreeDelta} (h : Stands s extents external) (hidle : owing (keepBlocks newSize) (2 ^ 32) extents = 0)
    (hrun : reserialize g csumSeed extents external s = (.ok delta, s')) :
    ∃ r, truncateChunk g csumSeed policy newSize limit s = (.ok r, (TreeFs.account (delta.netMeta - 0) s').2) ∧
      r.nextBound = truncateNeed s'.fs extents := by
  have hnone : extents.find? (Extent.straddles (keepBlocks newSize)) = none := by
    by_contra hsome
    exact (work_iff h.sound h.ordered _).mp (.inr (Option.isSome_iff_ne_none.mpr hsome)) hidle
  have hnil : doomedAbove (keepBlocks newSize) extents = [] := by
    by_contra hne
    exact (work_iff h.sound h.ordered _).mp (.inl hne) hidle
  have hkept : keptBelow (keepBlocks newSize) extents = extents := by
    have hsplit := h.ordered.punchedKept_split h.sound (keepBlocks newSize)
    rw [punchedKept_settled hidle, hnone] at hsplit
    exact (List.append_nil _ ▸ hsplit).symm
  have hfree : ∀ need, TreeFs.onFs (freeDoomed g policy limit.isSome need []) s = (.ok 0, s) := fun _ => rfl
  have htail : ∀ need stopped, TreeFs.onFs (freeTail g policy limit.isSome need (keepBlocks newSize) stopped none) s =
      (.ok ([], 0), s) := fun _ _ => rfl
  have hshrink : shrinkTree g csumSeed extents external 0 s =
      (.ok (), (TreeFs.account (delta.netMeta - 0) s').2) := by
    unfold shrinkTree
    rw [h.ordered.sortByBlock, Op.bind_ok hrun]
    rfl
  unfold keptBelow at hkept
  unfold doomedAbove at hnil
  unfold truncateChunk
  rw [Op.bind_ok h.flatten]
  dsimp only
  rw [Op.get_bind, h.ordered.sortByBlock, hnil, hnone, if_neg (by rintro ⟨-, hne | hsome⟩ <;> contradiction),
    Op.bind_ok (hfree _), Op.bind_ok (htail _ _), hkept]
  have hall : extents ++ ([] : List Extent).drop 0 ++ [] = extents := by simp
  have hzero : totalLen (([] : List Extent).take 0) + (([] : List Extent), 0).2 = 0 := rfl
  rw [hall, hzero, Op.bind_ok hshrink]
  exact ⟨_, rfl, rfl⟩

section Runs

variable {ρ : Type} {chunk : Option Nat → TreeOp ρ} {last : ρ → Bool} {bound bound' : ρ → Nat}
  {need : Fs → List Extent → Nat} {limit : Option Nat} {trace : List (TreeFs × TreeFs)}

section

variable (hrs : Restartable chunk last bound lo hi need) (h : Stands s extents external)

include hrs h

theorem Pauses.cheapens (hp : Pauses (chunk limit) last bound' trace s s1) :
    ∃ extents1 external1, Stands s1 extents1 external1 ∧ owing lo hi extents1 ≤ owing lo hi extents ∧
      need s1.fs extents1 ≤ need s.fs extents := by
  induction hp with
  | start s => exact ⟨extents, external, h, le_rfl, le_rfl⟩
  | @next trace s s1 s2 s3 r hp hrun hmore hres ih =>
    obtain ⟨extents1, external1, hst, howing, hneed⟩ := ih h
    obtain ⟨extents2, ha⟩ := (hrs.chunk s1 extents1 external1 limit hst).of_ok hrun
    obtain ⟨external2, hst2, -⟩ := ha.becomes
    refine ⟨extents2, external2, hres.stands hst2, le_trans ha.nears.owing_le howing, ?_⟩
    rw [hrs.congr _ _ _ hres.layout]
    exact le_trans ha.need_le hneed

theorem Restartable.affordable {max : Nat} (hfit : owing lo hi extents = 0 ∨ need s.fs extents ≤ max)
    (hp : Pauses (chunk (some max)) last bound' trace s s1) :
    (chunk (some max)).Ends s1 (fun r _ => owing lo hi extents ≠ 0 → bound r ≤ max) fun e _ => e.tooBig = false := by
  obtain ⟨extents1, external1, hst, howing, hneed⟩ := hp.cheapens hrs h
  refine (hrs.chunk s1 extents1 external1 (some max) hst).mono (fun r s' hr hwork => ?_) fun e s' he => ?_
  · obtain ⟨extents', ha⟩ := hr
    rw [ha.bound_eq]
    exact le_trans ha.need_le (le_trans hneed (hfit.resolve_left hwork))
  · refine Bool.eq_false_iff.mpr fun hbig => ?_
    obtain ⟨l, hl, hwork, hlt⟩ := he hbig
    cases hl
    rcases hfit with hzero | hle
    · exact hwork (Nat.le_zero.mp (hzero ▸ howing))
    · exact absurd (le_trans hneed hle) (not_le.mpr hlt)

end

end Runs

end Plan

end Ext4
