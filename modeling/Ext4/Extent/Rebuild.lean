import Ext4.Extent.Meta

namespace Ext4

open Bytes Fs List TreeFs

variable {g : JournalGeometry} {csumSeed : Option UInt32}

namespace Fs

variable {fs fs' base : Fs}

theorem Granted.readable {access : WriteAccess} {b : Nat} (hg : fs.Granted access b)
    (hlive : access.isLive = true) : fs.image b ≠ none := by
  cases hg with
  | inert haccess => simp [WriteAccess.isLive, haccess] at hlive
  | captured hl haccess hcap => simp [hl.image, Transaction.bufferBytes, hcap]

theorem Ready.journal_none (hr : fs.Ready) (hn : fs.handle = none) : fs.journal = none := by
  cases hr with
  | plain _ hj => exact hj
  | live hl => simp [hl.handle] at hn

theorem writeDevice_ends (hr : fs.Ready) (hn : fs.handle = none) (bid : Nat) (block : Block) :
    (writeDevice bid block).Ends fs
      (fun _ fs' => fs.Moves fs' fs.blockUsed {bid} ∅ ∧ fs'.image bid = some block)
      fun _ fs' => fs' = fs := by
  have hj := hr.journal_none hn
  cases hdev : fs.device bid with
  | none => simp [writeDevice, Op.Ends, hdev]
  | some old =>
    simp only [writeDevice, Op.Ends, hdev]
    refine ⟨⟨rfl, .plain hn hj, rfl, rfl, fun b => ?_, fun _ _ => rfl, fun b _ hb _ => ?_,
      fun S n _ _ _ hc => fun h hh => ?_, .of_same rfl rfl, fun hlive => ?_⟩, ?_⟩
    · by_cases hb : b = bid
      · simp [hb, hdev]
      · simp [hb]
    · have hne : b ≠ bid := hb
      simp [Fs.image, hj, hne]
    · exact absurd hh (by simp [hn])
    · simp [hn] at hlive
    · simp [Fs.image, hj]

theorem writeNode_ends (hr : fs.Ready) (bid : Nat) (block : Block) :
    (writeNode g bid block).Ends fs
      (fun _ fs' => fs.Moves fs' fs.blockUsed {bid} ∅ ∧ fs'.image bid = some block)
      fun _ fs' => fs.Carries fs' ∧ (fs.handle.isSome = true → fs.Refuses bid) ∧
        ∀ b, fs'.image b = fs.image b := by
  refine (getWriteAccess_ends hr bid).bindOr (fun _ fs1 h1 => ⟨h1.1.carries, fun _ => h1.2, h1.1.image⟩) fun access fs1 h1 => ?_
  obtain ⟨h1, hg⟩ := h1
  refine (patch_ends h1.ready hg fun _ => block).bindOr (fun _ _ hf => hf.elim) fun _ fs2 h2 => ?_
  have hevolves : fs.Moves fs2 fs.blockUsed {bid} ∅ := by
    have hev := h1.patch (f := fun _ => block) h2
    refine hev.moves (fun b hb => ?_) fun b hb => .inr (by simpa using hb)
    rw [overlay, if_neg]
    rintro ⟨rfl, -⟩
    exact hb rfl
  cases hg with
  | inert haccess hhandle =>
    have hlive : access.isLive = false := by simp [WriteAccess.isLive, haccess]
    have hn : fs2.handle = none := by
      have hmode := h2.mode
      rw [hhandle] at hmode
      simpa using hmode
    rw [hlive]
    simp only [Bool.false_eq_true, if_false]
    refine (writeDevice_ends h2.ready hn bid block).mono (fun _ fs3 h3 => ⟨?_, h3.2⟩)
      fun _ fs3 h3 => ?_
    · refine (hevolves.trans h3.1).weaken (fun b hb => hevolves.used_eq b hb) (by simp) (by simp)
    · subst h3
      have hdead : fs.handle.isSome = false := by
        rw [← hevolves.mode, hn]
        rfl
      refine ⟨hevolves.carries, fun hsome => ?_, fun b => ?_⟩
      · rw [hdead] at hsome
        cases hsome
      · rw [(h1.patch (f := fun _ => block) h2).image, overlay, if_neg]
        rintro ⟨-, hsome⟩
        rw [hdead] at hsome
        cases hsome
  | captured hl haccess hcap =>
    have hlive : access.isLive = true := by simp [WriteAccess.isLive, haccess]
    have hread := (Granted.captured hl haccess hcap).readable hlive
    rw [if_pos hlive]
    refine .ret ⟨hevolves, ?_⟩
    rw [h2.image, patched, overlay, if_pos ⟨rfl, by simp [hl.handle]⟩]
    cases himage : fs1.image bid with
    | none => exact absurd himage hread
    | some old => rfl

structure Owns (fs : Fs) (bids : List Nat) : Prop where
  nodup : bids.Nodup
  contains : ∀ b ∈ bids, fs.layout.Contains b
  used : ∀ b ∈ bids, fs.blockUsed b = true
  system : ∀ b ∈ bids, b ∉ fs.layout.systemBids

structure Building (base fs : Fs) (fresh blocks : List Nat) : Prop where
  moves : base.Moves fs (fun b => decide (b ∈ fresh) || base.blockUsed b) {b | b ∈ blocks} ∅
  readable : base.handle.isSome = true → ∀ b ∈ blocks, fs.image b ≠ none

variable {fresh blocks old : List Nat} {funded : Prop} {S : Finset Nat}

theorem Building.write (h : base.Building fs fresh blocks) {bid : Nat} (hbid : bid ∈ blocks)
    (hsys : ∀ b ∈ blocks, b ∉ base.layout.systemBids) {block : Block}
    (hmoves : fs.Moves fs' fs.blockUsed {bid} ∅) (himage : fs'.image bid = some block) :
    base.Building fs' fresh blocks where
  moves := by
    refine (h.moves.trans hmoves).weaken (fun b hb => h.moves.used_eq b hb) ?_ (by simp)
    rintro b (hb | rfl)
    · exact hb
    · exact hbid
  readable hlive b hb := by
    by_cases heq : b = bid
    · simp [heq, himage]
    · rw [hmoves.image b (by rw [h.moves.layout]; exact hsys b hb) (by simpa using heq) (by simp)]
      exact h.readable hlive b hb

theorem Building.admits (h : base.Building fs fresh blocks)
    (hfund : base.Funds S fresh.length) (hS : base.layout.systemBids ⊆ S)
    (hblocks : ∀ b ∈ blocks, b ∈ S ∨ b ∈ fresh) {bid : Nat} (hbid : bid ∈ blocks) :
    ¬fs.Refuses bid := by
  have hcov : base.Covers (S ∪ fresh.toFinset) 0 := Covers.union (by
    rw [zero_add]
    exact hfund.covers)
  have hmem : ∀ b ∈ blocks, b ∈ S ∪ fresh.toFinset := fun b hb => by
    rcases hblocks b hb with hb | hb
    · exact Finset.mem_union_left _ hb
    · exact Finset.mem_union_right _ (mem_toFinset.mpr hb)
  have hcov' := h.moves.credits _ 0 (fun _ hb => Finset.mem_union_left _ (hS hb)) hmem
    (fun _ _ hb => hb) hcov
  exact hcov'.admits (hmem bid hbid) (h.readable hfund.live bid hbid)

theorem writeNodes_ends {β : Type} (enc : β → Block) {plan : List (β × Nat)} (h : base.Building fs fresh blocks)
    (hplan : ∀ p ∈ plan, p.2 ∈ blocks) (hnodup : (plan.map Prod.snd).Nodup)
    (hsys : ∀ b ∈ blocks, b ∉ base.layout.systemBids) (hfund : funded → base.Funds S fresh.length)
    (hS : base.layout.systemBids ⊆ S) (hblocks : ∀ b ∈ blocks, b ∈ S ∨ b ∈ fresh) :
    (Op.each (fun p => writeNode g p.2 (enc p.1)) plan).Ends fs
      (fun _ fs' => base.Building fs' fresh blocks ∧ (∀ p ∈ plan, fs'.image p.2 = some (enc p.1)) ∧
        ∀ b ∈ blocks, b ∉ plan.map Prod.snd → fs'.image b = fs.image b)
      fun _ fs' => base.Retreats funded fs' fresh ∧ ¬funded := by
  induction plan generalizing fs with
  | nil => exact .ret ⟨h, by simp, fun _ _ _ => rfl⟩
  | cons p rest ih =>
    obtain ⟨hnot, hrest⟩ := nodup_cons.mp hnodup
    have hp := hplan p mem_cons_self
    refine ((writeNode_ends h.moves.ready p.2 (enc p.1)).mono (fun _ _ h1 => h1)
      fun _ fs1 h1 => ?_).bind fun _ fs1 h1 => ?_
    · have hno : ¬funded := fun hf => by
        have hfund := hfund hf
        exact absurd (h1.2.1 (h.moves.mode.trans hfund.live)) (h.admits hfund hS hblocks hp)
      exact ⟨⟨h.moves.carries.trans h1.1, fun hf => absurd hf hno⟩, hno⟩
    · have hb := h.write hp hsys h1.1 h1.2
      refine (ih hb (fun q hq => hplan q (mem_cons_of_mem p hq)) hrest).mono
        (fun _ fs2 h2 => ⟨h2.1, fun q hq => ?_, fun b hb' hout => ?_⟩) fun _ _ h2 => h2
      · rcases mem_cons.mp hq with rfl | hq
        · rw [h2.2.2 q.2 hp hnot]
          exact h1.2
        · exact h2.2.1 q hq
      · rw [map_cons, mem_cons, not_or] at hout
        rw [h2.2.2 b hb' hout.2]
        exact h1.1.image b (by rw [h.moves.layout]; exact hsys b hb') (by simpa using hout.1) (by simp)

theorem Grown.apart (hg : base.Grown fs fresh) (ho : base.Owns old) {b : Nat} (hold : b ∈ old) :
    b ∉ fresh := fun hf => by
  have hclear := (hg.clear b hf).2
  rw [ho.used b hold] at hclear
  cases hclear

theorem Grown.building (hg : base.Grown fs fresh) (ho : base.Owns old)
    (hread : ∀ b ∈ old, base.image b ≠ none) (n : Nat) :
    base.Building fs fresh (old.take n ++ fresh) where
  moves := hg.moves.weaken (fun _ _ => rfl) (fun _ hb => mem_append_right _ hb)
    subset_rfl
  readable hlive b hb := by
    rcases mem_append.mp hb with hb | hb
    · have hold := mem_of_mem_take hb
      rw [hg.moves.image b (ho.system b hold) (hg.apart ho hold) (by simp)]
      exact hread b hold
    · exact hg.readable hlive b hb

def Frees (fs fs' : Fs) (bids : List Nat) : Prop :=
  fs.Moves fs' (fun b => fs.blockUsed b && !decide (b ∈ bids)) ∅ {b | b ∈ bids}

theorem Frees.nil (hr : fs.Ready) : fs.Frees fs [] :=
  (Moves.refl hr).weaken (by simp) subset_rfl (Set.empty_subset _)

theorem Frees.append {fs'' : Fs} {bids bids' : List Nat} (h1 : fs.Frees fs' bids)
    (h2 : fs'.Frees fs'' bids') : fs.Frees fs'' (bids ++ bids') := by
  refine (Moves.trans h1 h2).weaken (fun b hb => ?_) (by simp) ?_
  · rw [h1.used_eq b hb, Bool.and_assoc]
    refine congrArg (fs.blockUsed b && ·) ?_
    simp [mem_append]
  · rintro b (hb | hb)
    · exact mem_append_left _ hb
    · exact mem_append_right _ hb

theorem freeMetaBlocks_ends (hr : fs.Ready) (hw : fs.layout.Wf) {bids : List Nat}
    (hbids : ∀ b ∈ bids, fs.layout.Contains b) :
    (freeMetaBlocks g bids).Ends fs (fun count fs' => count = bids.length ∧ fs.Frees fs' bids)
      fun _ fs' => fs.Spoiled fs' := by
  refine Op.Ends.bind (Q := fun _ fs' => fs.Frees fs' bids) ?_ fun _ fs1 h1 => .ret ⟨rfl, h1⟩
  induction bids generalizing fs with
  | nil => exact .ret (.nil hr)
  | cons bid rest ih =>
    refine (freeMetaBlock_ends hr hw (hbids bid mem_cons_self)).bind fun _ fs1 h1 => ?_
    have hone : fs.Frees fs1 [bid] := h1.weaken (by simp) subset_rfl (by simp)
    have hrest : ∀ b ∈ rest, fs1.layout.Contains b := fun b hb => by
      rw [h1.layout]
      exact hbids b (mem_cons_of_mem bid hb)
    exact (ih h1.ready (h1.layout ▸ hw) hrest).mono (fun _ fs2 h2 => hone.append h2)
      fun _ _ h2 => h1.spoiled h2

theorem Building.release {n : Nat} (h : base.Building fs fresh (old.take n ++ fresh))
    (ho : base.Owns old) (hapart : ∀ b ∈ old, b ∉ fresh) (hfree : fs.Frees fs' (old.drop n)) :
    base.Moves fs' (fun b => decide (b ∈ old.take n ++ fresh) || base.blockUsed b && !decide (b ∈ old))
      {b | b ∈ old.take n ++ fresh} {b | b ∈ old ∧ b ∉ old.take n ++ fresh} := by
  have hsplit : ∀ b, b ∈ old ↔ b ∈ old.take n ∨ b ∈ old.drop n := fun b => by
    rw [← mem_append, take_append_drop]
  have hdisj : ∀ b, b ∈ old.take n → b ∉ old.drop n := fun b hb hb' =>
    (disjoint_take_drop ho.nodup (le_refl n)) hb hb'
  refine (h.moves.trans hfree).weaken (fun b hb => ?_) (by simp) ?_
  · rw [h.moves.used_eq b hb]
    have hused := ho.used b
    have hapart := hapart b
    have hsplit := hsplit b
    have hdisj := hdisj b
    rw [Bool.eq_iff_iff]
    simp only [Bool.and_eq_true, Bool.or_eq_true, decide_eq_true_eq, Bool.not_eq_true',
      decide_eq_false_iff_not, mem_append]
    tauto
  · rintro b (hb | hb)
    · exact absurd hb (by simp)
    · refine ⟨(hsplit b).mpr (.inr hb), fun hin => ?_⟩
      rcases mem_append.mp hin with hin | hin
      · exact hdisj b hin hb
      · exact hapart b ((hsplit b).mpr (.inr hb)) hin

structure Pooled (base : Fs) (old : List Nat) (n : Nat) (fs : Fs) (fresh blocks : List Nat) : Prop where
  blocks_eq : blocks = old.take n ++ fresh
  fresh_length : fresh.length = n - old.length
  grown : base.Grown fs fresh

namespace Pooled

variable {n b : Nat} (hp : base.Pooled old n fs fresh blocks) (ho : base.Owns old)
include hp

theorem length : blocks.length = n := by
  rw [hp.blocks_eq, length_append, length_take, hp.fresh_length]
  omega

theorem covered (hb : b ∈ blocks) : b ∈ S ∪ old.toFinset ∨ b ∈ fresh := by
  rw [hp.blocks_eq] at hb
  rcases mem_append.mp hb with hb | hb
  · exact .inl (Finset.mem_union_right _ (mem_toFinset.mpr (mem_of_mem_take hb)))
  · exact .inr hb

include ho

theorem nodup : blocks.Nodup := by
  rw [hp.blocks_eq]
  refine nodup_append.mpr ⟨ho.nodup.sublist (take_sublist n old), hp.grown.nodup, fun a ha b hb => ?_⟩
  rintro rfl
  exact hp.grown.apart ho (mem_of_mem_take ha) hb

theorem origin (hs : base.Steady) (hb : b ∈ blocks) :
    base.layout.Contains b ∧ (b ∈ old ∨ base.blockUsed b = false) ∧ b ∉ base.layout.systemBids := by
  rw [hp.blocks_eq] at hb
  rcases mem_append.mp hb with hb | hb
  · have hold := mem_of_mem_take hb
    exact ⟨ho.contains b hold, .inl hold, ho.system b hold⟩
  · obtain ⟨hc, hclear⟩ := hp.grown.clear b hb
    exact ⟨hc, .inr hclear, hs.not_system hc hclear⟩

theorem building (hread : ∀ b ∈ old, base.image b ≠ none) : base.Building fs fresh blocks := by
  rw [hp.blocks_eq]
  exact hp.grown.building ho hread n

end Pooled

end Fs

section Fits

variable {extents : List Extent} {leafBids interiorBids : List Nat} {p : List Extent × Nat}

section

variable (hvalid : ∀ e ∈ extents, e.Valid)
include hvalid

theorem fits_leafEntry (hbids : ∀ b ∈ leafBids, b < 2 ^ 48) (hp : p ∈ leafPlan extents leafBids) : (leafEntry p).Fits := by
  obtain ⟨hchunk, hbid⟩ := of_mem_zip hp
  obtain ⟨e, he, hfirst⟩ := exists_firstBlock (mem_chunks leafMax_pos hchunk).1
  refine ⟨?_, hbids _ hbid⟩
  have hblock := (hvalid e (mem_of_mem_chunks leafMax_pos hchunk he)).block_lt
  rw [← hfirst] at hblock
  exact hblock

theorem holds_leafPlan (hp : p ∈ leafPlan extents leafBids) :
    Holds (extentCell 4096) 0 (leafNode csumSeed p.1) p.1 := by
  have hchunk := (of_mem_zip hp).1
  exact holds_leafNode (fun e he => (hvalid e (mem_of_mem_chunks leafMax_pos hchunk he)).toEncodable)
    (mem_chunks leafMax_pos hchunk).2

theorem fits_interiorEntry (hleaf : ∀ b ∈ leafBids, b < 2 ^ 48)
    (hinterior : ∀ b ∈ interiorBids, b < 2 ^ 48) {q : List (List Extent × Nat) × Nat}
    (hq : q ∈ interiorPlan (leafPlan extents leafBids) interiorBids) : (interiorEntry q).Fits := by
  obtain ⟨hchunk, hbid⟩ := of_mem_zip hq
  obtain ⟨p, rest, hhead, hkey⟩ := interiorKey_eq (mem_chunks interiorMax_pos hchunk).1
  have hmem : p ∈ q.1 := by simp [hhead]
  have hfits := fits_leafEntry hvalid hleaf (mem_of_mem_chunks interiorMax_pos hchunk hmem)
  refine ⟨?_, hinterior _ hbid⟩
  have hblock : firstBlock p.1 < 2 ^ 32 := hfits.1
  rw [← hkey] at hblock
  exact hblock

end

section

variable (plan : List (List Extent × Nat)) (interiorBids : List Nat)

theorem interiorPlan_zip :
    ((plan.map leafEntry).chunks interiorMax).zip interiorBids =
      (interiorPlan plan interiorBids).map fun q => (q.1.map leafEntry, q.2) := by
  rw [chunks_map, interiorPlan, zip_map_left]
  rfl

theorem rootIndex_eq :
    rootIndex (plan.map leafEntry) interiorBids = (interiorPlan plan interiorBids).map interiorEntry := by
  rw [rootIndex, interiorPlan_zip, map_map]
  rfl

end

end Fits

structure Rebuilt (s s' : TreeFs) (extents : List Extent) (old external : List Nat) (delta : TreeDelta) : Prop where
  shaped : Shaped s'.fs.image s'.tree.root extents external
  nodup : external.Nodup
  origin : ∀ b ∈ external, s.fs.layout.Contains b ∧ (b ∈ old ∨ s.fs.blockUsed b = false)
  moves : s.fs.Moves s'.fs (fun b => decide (b ∈ external) || s.fs.blockUsed b && !decide (b ∈ old))
    {b | b ∈ external} {b | b ∈ old ∧ b ∉ external}
  net : delta.netMeta = external.length - old.length
  sectorCount : s'.tree.sectorCount = s.tree.sectorCount

structure Foiled (s : TreeFs) (funded grows : Prop) (s' : TreeFs) : Prop where
  carries : s.fs.Carries s'.fs
  kept : funded → s'.fs.aborted = true ∨ s'.tree = s.tree ∧ s.fs.Recoils s'.fs ∧ grows

variable {s : TreeFs} {extents : List Extent} {old : List Nat} {funded grows : Prop}

theorem Fs.Retreats.foiled {fs : Fs} (h : s.fs.Retreats funded fs []) (hg : funded → grows) :
    Foiled s funded grows { s with fs := fs } :=
  ⟨h.carries, fun hf => (h.recoils hf).imp id fun hr => ⟨rfl, hr, hg hf⟩⟩

theorem reserialize_inline_eq (hlen : extents.length ≤ inlineMax) :
    reserialize g csumSeed extents [] s =
      (.ok ⟨0, 0⟩, { s with tree := { s.tree with root := inlineLeafRoot extents } }) := by
  rw [reserialize, if_pos hlen]
  rfl

abbrev Rebuilds (g : JournalGeometry) (csumSeed : Option UInt32) (s : TreeFs) (extents : List Extent)
    (old : List Nat) (funded grows : Prop) : Prop :=
  (reserialize g csumSeed extents old).Ends s
    (fun delta s' => ∃ external, Rebuilt s s' extents old external delta) fun _ s' => Foiled s funded grows s'

theorem reserialize_inline (hs : s.fs.Steady) (ho : s.fs.Owns old) (hvalid : ∀ e ∈ extents, e.Valid)
    (hlen : extents.length ≤ inlineMax) (hlive : funded → s.fs.handle.isSome = true) :
    Rebuilds g csumSeed s extents old funded grows := by
  unfold Rebuilds reserialize
  rw [if_pos hlen]
  refine .bind_modify ?_
  refine Op.Ends.bind (Q := fun count s' => count = old.length ∧
    s'.tree = { s.tree with root := inlineLeafRoot extents } ∧
      s.fs.Frees s'.fs old) ?_
    fun count s1 h1 => .ret ⟨[], ?_⟩
  · refine .zoom ((freeMetaBlocks_ends hs.ready hs.wf ho.contains).mono
      (fun count fs1 h1 => ⟨h1.1, rfl, h1.2⟩) fun _ fs1 h1 => ⟨h1.1, fun hf => .inl (h1.2 (hlive hf))⟩)
  · obtain ⟨hcount, htree, hmoves⟩ := h1
    have hroot := holds_inlineLeafRoot (fun e he => (hvalid e he).toEncodable) hlen
    refine ⟨?_, .nil, by simp, Moves.weaken hmoves (by simp) (by simp) (by simp), ?_, by rw [htree]⟩
    · rw [htree]
      exact .inline hlen hroot
    · simp [TreeDelta.netMeta, hcount]

theorem drop_min_length (l : List Nat) (n : Nat) : l.drop (min n l.length) = l.drop n := by
  rcases le_total n l.length with h | h
  · rw [min_eq_left h]
  · rw [min_eq_right h, drop_length, drop_eq_nil_of_le h]

section Stages

variable {fs0 fs : Fs} {fresh blocks external : List Nat} {n goal : Nat}

theorem acquire_ends (hs : s.fs.Steady)
    (hfund : funded → s.fs.Funds (s.fs.layout.systemBids ∪ old.toFinset) (n - old.length))
    (hgrows : old.length < n → grows) :
    (onFs (acquireMetaBlocks g old n goal)).Ends s
      (fun res s' => ∃ fs, s' = { s with fs := fs } ∧ s.fs.Pooled old n fs res.2 res.1)
      fun _ s' => Foiled s funded grows s' :=
  .zoom ((acquireMetaBlocks_ends hs old n _ fun hf =>
    (hfund hf).mono Finset.subset_union_left le_rfl).mono
      (fun _ _ h1 => ⟨_, rfl, h1.1, h1.2.1, h1.2.2⟩) fun _ _ h1 => h1.1.foiled fun _ => hgrows h1.2)

variable (hs : s.fs.Steady) (ho : s.fs.Owns old) (hp : s.fs.Pooled old n fs0 fresh blocks)
  (hb : s.fs.Building fs fresh blocks)
include hs ho hp hb

theorem write_ends {β : Type} (enc : β → Block) {plan : List (β × Nat)} (hplan : (plan.map Prod.snd).Sublist blocks)
    (hfund : funded → s.fs.Funds (s.fs.layout.systemBids ∪ old.toFinset) (n - old.length)) :
    (onFs (orRollback g fresh (Op.each (fun p => writeNode g p.2 (enc p.1)) plan))).Ends
      { s with fs := fs }
      (fun _ s' => ∃ fs', s' = { s with fs := fs' } ∧ s.fs.Building fs' fresh blocks ∧
        (∀ p ∈ plan, fs'.image p.2 = some (enc p.1)) ∧
        ∀ b ∈ blocks, b ∉ plan.map Prod.snd → fs'.image b = fs.image b)
      fun _ s' => Foiled s funded grows s' := by
  rw [← hp.fresh_length] at hfund
  have hsys : ∀ b ∈ blocks, b ∉ s.fs.layout.systemBids := fun b hbid => (hp.origin ho hs hbid).2.2
  refine .zoom ((orRollback_ends hs (fun hf => (hfund hf).live) hp.grown.nodup (writeNodes_ends enc hb
    (fun p hmem => hplan.subset (mem_map_of_mem hmem)) ((hp.nodup ho).sublist hplan) hsys hfund
    Finset.subset_union_left fun b hbid => hp.covered hbid)).mono (fun _ fs2 h2 => ?_) fun _ fs2 h2 => ?_)
  · exact ⟨fs2, rfl, h2⟩
  · exact h2.1.foiled fun hf => absurd hf h2.2

theorem finish_ends {root : Buffer 60} (hshaped : Shaped fs.image root extents external)
    (hperm : external.Perm blocks) (hlive : funded → s.fs.handle.isSome = true) :
    (do
      setRoot root
      let metaFreed ← onFs (freeMetaBlocks g (old.drop (min n old.length)))
      Op.ret ⟨fresh.length, metaFreed⟩ : TreeOp TreeDelta).Ends { s with fs := fs }
      (fun delta s' => ∃ external, Rebuilt s s' extents old external delta)
      fun _ s' => Foiled s funded grows s' := by
  refine .bind_modify ?_
  rw [drop_min_length]
  refine Op.Ends.bind (Q := fun count s' => count = (old.drop n).length ∧
    s'.tree = { s.tree with root := root } ∧ fs.Frees s'.fs (old.drop n)) ?_
    fun count s1 h1 => .ret ⟨external, ?_⟩
  · refine .zoom ((freeMetaBlocks_ends hb.moves.ready (hb.moves.layout ▸ hs.wf) fun b hbid => ?_).mono
      (fun count fs1 h1 => ⟨h1.1, rfl, h1.2⟩) fun _ fs1 h1 => ?_)
    · rw [hb.moves.layout]
      exact ho.contains b (mem_of_mem_drop hbid)
    · have hspoiled := hb.moves.spoiled h1
      exact ⟨hspoiled.1, fun hf => .inl (hspoiled.2 (hlive hf))⟩
  · obtain ⟨hcount, htree, hfree⟩ := h1
    have hapart : ∀ b ∈ old, b ∉ fresh := fun b hbid => hp.grown.apart ho hbid
    have hmem : ∀ b, b ∈ external ↔ b ∈ blocks := fun b => hperm.mem_iff
    refine ⟨?_, hperm.nodup_iff.mpr (hp.nodup ho), fun b hbid => ?_, ?_, ?_, by rw [htree]⟩
    · rw [htree]
      refine hshaped.congr fun b hbid => ?_
      have hin := (hmem b).mp hbid
      refine hfree.image b (by rw [hb.moves.layout]; exact (hp.origin ho hs hin).2.2) (by simp) fun hdrop => ?_
      rw [hp.blocks_eq] at hin
      rcases mem_append.mp hin with hin | hin
      · exact (disjoint_take_drop ho.nodup (le_refl n)) hin hdrop
      · exact hapart b (mem_of_mem_drop hdrop) hin
    · have hin := hp.origin ho hs ((hmem b).mp hbid)
      exact ⟨hin.1, hin.2.1⟩
    · have hbuild := hb
      rw [hp.blocks_eq] at hbuild
      simp only [hmem, hp.blocks_eq]
      exact hbuild.release ho hapart hfree
    · have hlen := hperm.length_eq
      have hfresh := hp.fresh_length
      have hsize := hp.length
      simp only [TreeDelta.netMeta, hcount, hlen, length_drop]
      omega

end Stages

section

variable (hs : s.fs.Steady) (ho : s.fs.Owns old) (hread : ∀ b ∈ old, s.fs.image b ≠ none) (hvalid : ∀ e ∈ extents, e.Valid)

include hs ho hread hvalid

theorem reserialize_leaves (hlen : ¬extents.length ≤ inlineMax)
    (hfew : (extents.length + leafMax - 1) / leafMax ≤ inlineMax)
    (hfund : funded → s.fs.Funds (s.fs.layout.systemBids ∪ old.toFinset)
      ((extents.length + leafMax - 1) / leafMax - old.length))
    (hgrows : old.length < (extents.length + leafMax - 1) / leafMax → grows) :
    Rebuilds g csumSeed s extents old funded grows := by
  unfold Rebuilds reserialize
  rw [if_neg hlen]
  dsimp only
  rw [if_pos hfew]
  generalize hn : (extents.length + leafMax - 1) / leafMax = n at hfew hfund hgrows
  refine (acquire_ends hs hfund hgrows).bind fun res s1 h1 => ?_
  obtain ⟨leafBids, fresh⟩ := res
  obtain ⟨fs1, rfl, hp⟩ := h1
  dsimp only at hp ⊢
  have hcount : leafBids.length = (extents.chunks leafMax).length := by
    rw [hp.length, chunks_length leafMax_pos, hn]
  have hlt : ∀ b ∈ leafBids, b < 2 ^ 48 := fun b hb =>
    lt_of_lt_of_le (hp.origin ho hs hb).1.2 hs.narrow
  have hplan : ((leafPlan extents leafBids).map Prod.snd).Sublist leafBids := by rw [snd_leafPlan hcount]
  refine (write_ends hs ho hp (hp.building ho hread) (leafNode csumSeed) hplan hfund).bind fun _ s2 h2 => ?_
  obtain ⟨fs2, rfl, hbuild, himage, -⟩ := h2
  refine finish_ends hs ho hp hbuild (.leaves (not_le.mp hlen) hcount ?_
    (holds_indexRoot (fun idx hidx => ?_) ?_ (by decide)) fun p hmem => ?_) (.refl _) fun hf => (hfund hf).live
  · rw [hp.length]
    exact hfew
  · obtain ⟨p, hmem, rfl⟩ := mem_map.mp hidx
    exact fits_leafEntry hvalid hlt hmem
  · change ((leafPlan extents leafBids).map leafEntry).length ≤ inlineMax
    rw [length_map, length_leafPlan hcount, hp.length]
    exact hfew
  · exact ⟨_, himage p hmem, holds_leafPlan hvalid hmem⟩

theorem reserialize_interiors
    (hlen : ¬extents.length ≤ inlineMax) {m : Nat} (hm : (extents.length + leafMax - 1) / leafMax = m)
    (hmany : ¬m ≤ inlineMax) (hfund : funded → s.fs.Funds (s.fs.layout.systemBids ∪ old.toFinset)
      (m + (m + interiorMax - 1) / interiorMax - old.length))
    (hgrows : old.length < m + (m + interiorMax - 1) / interiorMax → grows)
    (hold : old.length ≤ inlineMax * interiorMax + inlineMax) :
    Rebuilds g csumSeed s extents old funded grows := by
  unfold Rebuilds reserialize
  rw [if_neg hlen]
  dsimp only
  rw [hm, if_neg hmany]
  generalize hk : (m + interiorMax - 1) / interiorMax = k at hfund hgrows
  split
  next hdepth =>
    refine .fail ⟨⟨hs.ready, rfl, fun ha => ha⟩, fun _ =>
      .inr ⟨rfl, ⟨∅, by simp, Moves.refl hs.ready⟩, hgrows ?_⟩⟩
    have hmul : inlineMax * interiorMax < m := by
      have hlt := Nat.lt_of_lt_of_eq hdepth hk.symm
      simp only [inlineMax, interiorMax, entrySize] at hlt ⊢
      omega
    omega
  next hdepth =>
  refine (acquire_ends hs hfund hgrows).bind fun res s1 h1 => ?_
  obtain ⟨blocks, fresh⟩ := res
  obtain ⟨fs1, rfl, hp⟩ := h1
  dsimp only at hp ⊢
  have hleaf_len : (blocks.take m).length = m := by
    rw [length_take, hp.length]
    omega
  have hint_len : (blocks.drop m).length = k := by
    rw [length_drop, hp.length]
    omega
  have hcount : (blocks.take m).length = (extents.chunks leafMax).length := by
    rw [hleaf_len, chunks_length leafMax_pos, hm]
  have hinteriors : (blocks.drop m).length =
      ((leafPlan extents (blocks.take m)).chunks interiorMax).length := by
    rw [hint_len, chunks_length interiorMax_pos, length_leafPlan hcount, hleaf_len, hk]
  have hlt : ∀ b ∈ blocks, b < 2 ^ 48 := fun b hb =>
    lt_of_lt_of_le (hp.origin ho hs hb).1.2 hs.narrow
  have hlt_leaf : ∀ b ∈ blocks.take m, b < 2 ^ 48 := fun b hb => hlt b (mem_of_mem_take hb)
  have hplan : ((leafPlan extents (blocks.take m)).map Prod.snd).Sublist blocks := by
    rw [snd_leafPlan hcount]
    exact take_sublist m blocks
  refine (write_ends hs ho hp (hp.building ho hread) (leafNode csumSeed) hplan hfund).bind fun _ s2 h2 => ?_
  obtain ⟨fs2, rfl, hbuild2, hleaves, -⟩ := h2
  have hzip := interiorPlan_zip (leafPlan extents (blocks.take m)) (blocks.drop m)
  have hsnd : (((leafIndex extents (blocks.take m)).chunks interiorMax).zip (blocks.drop m)).map Prod.snd =
      blocks.drop m := by
    refine map_snd_zip (le_of_eq ?_)
    rw [show leafIndex extents (blocks.take m) = (leafPlan extents (blocks.take m)).map leafEntry from rfl,
      chunks_map, length_map, hinteriors]
  refine (write_ends hs ho hp hbuild2 (interiorNode csumSeed)
    (by rw [hsnd]; exact drop_sublist m blocks) hfund).bind fun _ s3 h3 => ?_
  obtain ⟨fs3, rfl, hbuild3, hwritten, hkept⟩ := h3
  have hnodes : ∀ q ∈ interiorPlan (leafPlan extents (blocks.take m)) (blocks.drop m),
      fs3.image q.2 = some (interiorNode csumSeed (q.1.map leafEntry)) := by
    intro q hq
    refine hwritten (q.1.map leafEntry, q.2) ?_
    change (q.1.map leafEntry, q.2) ∈
      (((leafPlan extents (blocks.take m)).map leafEntry).chunks interiorMax).zip (blocks.drop m)
    rw [hzip]
    exact mem_map.mpr ⟨q, hq, rfl⟩
  have hroot := rootIndex_eq (leafPlan extents (blocks.take m)) (blocks.drop m)
  change (do
      setRoot (indexRoot (rootIndex ((leafPlan extents (blocks.take m)).map leafEntry) (blocks.drop m)) 2)
      let metaFreed ← onFs (freeMetaBlocks g (old.drop (min (m + k) old.length)))
      Op.ret ⟨fresh.length, metaFreed⟩ : TreeOp TreeDelta).Ends _ _ _
  rw [hroot]
  refine finish_ends hs ho hp hbuild3 (.interiors hcount ?_ hinteriors
    (holds_indexRoot (fun idx hidx => ?_) ?_ (by decide)) (fun q hq => ?_) fun p hmem => ?_) ?_
    fun hf => (hfund hf).live
  · rw [hleaf_len]
    exact not_le.mp hmany
  · obtain ⟨q, hq, rfl⟩ := mem_map.mp hidx
    exact fits_interiorEntry hvalid hlt_leaf (fun b hb => hlt b (mem_of_mem_drop hb)) hq
  · rw [length_map, interiorPlan, length_zip, ← hinteriors, Nat.min_self, hint_len]
    exact not_lt.mp hdepth
  · have hchunk := (of_mem_zip hq).1
    refine ⟨_, hnodes q hq, holds_interiorNode (fun idx hidx => ?_) ?_⟩
    · obtain ⟨p, hmem, rfl⟩ := mem_map.mp hidx
      exact fits_leafEntry hvalid hlt_leaf (mem_of_mem_chunks interiorMax_pos hchunk hmem)
    · rw [length_map]
      exact (mem_chunks interiorMax_pos hchunk).2
  · have hbid := (of_mem_zip hmem).2
    refine ⟨leafNode csumSeed p.1, ?_, holds_leafPlan hvalid hmem⟩
    rw [hkept p.2 (mem_of_mem_take hbid) (by
      rw [hsnd]
      exact fun hdrop => (disjoint_take_drop (hp.nodup ho) (le_refl m)) hbid hdrop)]
    exact hleaves p hmem
  · refine (nodeBids_perm hinteriors).trans ?_
    rw [snd_leafPlan hcount, take_append_drop]

theorem reserialize_ends
    (hfund : funded → s.fs.Funds (s.fs.layout.systemBids ∪ old.toFinset)
      (externalNodeCount extents.length - old.length))
    (hold : old.length ≤ inlineMax * interiorMax + inlineMax) :
    Rebuilds g csumSeed s extents old funded (old.length < externalNodeCount extents.length) := by
  by_cases hlen : extents.length ≤ inlineMax
  · exact reserialize_inline hs ho hvalid hlen (fun hf => (hfund hf).live)
  · unfold externalNodeCount at hfund ⊢
    rw [if_neg hlen] at hfund ⊢
    by_cases hfew : (extents.length + leafMax - 1) / leafMax ≤ inlineMax
    · simp only [hfew, if_true, add_zero] at hfund ⊢
      exact reserialize_leaves hs ho hread hvalid hlen hfew hfund id
    · simp only [hfew, if_false] at hfund ⊢
      exact reserialize_interiors hs ho hread hvalid hlen rfl hfew hfund id hold

end

end Ext4
