import Ext4.Extent.Edits
import Ext4.Extent.Rebuild

namespace Ext4

open Bytes Fs List Extent

variable {n : Nat} {external' : List Nat} {delta : TreeDelta}
  {g : JournalGeometry} {csumSeed : Option UInt32} {policy : DataForgetPolicy}

section Read

variable {image : Nat → Option Block} {root : Buffer 60} {extents : List Extent} {external : List Nat}

theorem Shaped.readable (h : Shaped image root extents external) {b : Nat} (hb : b ∈ external) :
    image b ≠ none := by
  have hstored : ∀ {α : Type} {c : Cell 4096 α} {depth bid : Nat} {entries : List α},
      StoredAt image c depth bid entries → image bid ≠ none := by
    rintro α c depth bid entries ⟨block, himage, -⟩
    simp [himage]
  cases h with
  | inline => simp at hb
  | leaves _ hcount _ _ hleaves =>
    rw [← snd_leafPlan hcount] at hb
    obtain ⟨p, hp, rfl⟩ := mem_map.mp hb
    exact hstored (hleaves p hp)
  | interiors hcount _ hinteriors _ hnodes hleaves =>
    obtain ⟨q, hq, hmem⟩ := mem_flatMap.mp hb
    rcases mem_cons.mp hmem with rfl | hmem
    · exact hstored (hnodes q hq)
    · obtain ⟨p, hp, rfl⟩ := mem_map.mp hmem
      refine hstored (hleaves p ?_)
      rw [← flatMap_interiorPlan hinteriors]
      exact mem_flatMap.mpr ⟨q, hq, hp⟩

theorem Shaped.length_le (h : Shaped image root extents external) :
    external.length ≤ inlineMax * interiorMax + inlineMax := by
  cases h with
  | inline => simp
  | leaves _ _ hfew => exact Nat.le_add_left_of_le hfew
  | @interiors leafBids interiorBids hcount _ hinteriors hroot =>
    have hroom := hroot.room
    have hplan := length_leafPlan hcount
    have hchunks := chunks_length interiorMax_pos (leafPlan extents leafBids)
    rw [length_map, interiorPlan, length_zip, ← hinteriors, Nat.min_self] at hroom
    rw [(nodeBids_perm hinteriors).length_eq, length_append, length_map, hplan]
    rw [← hinteriors, hplan] at hchunks
    simp only [inlineMax, interiorMax, entrySize] at *
    omega

end Read

namespace Fs

variable {fs fs' fs'' : Fs} {old mid new freed : List Nat} {b : Nat}

structure Trades (fs fs' : Fs) (old new : List Nat) : Prop where
  origin : ∀ b ∈ new, fs.layout.Contains b ∧ (b ∈ old ∨ fs.blockUsed b = false)
  moves : ∃ X : Set Nat, (∀ b ∈ X, b ∈ old ∨ fs.layout.Contains b ∧ fs.blockUsed b = false) ∧
    fs.Moves fs' (fun b => decide (b ∈ new) || fs.blockUsed b && !decide (b ∈ old)) X X

theorem Owns.append (ho : fs.Owns old) (hn : fs.Owns new) (h : ∀ b ∈ old, b ∉ new) : fs.Owns (old ++ new) := by
  refine ⟨nodup_append.mpr ⟨ho.nodup, hn.nodup, fun a ha b hb hab => h a ha (hab ▸ hb)⟩, ?_, ?_, ?_⟩
  · intro b hb
    exact (mem_append.mp hb).elim (ho.contains b) (hn.contains b)
  · intro b hb
    exact (mem_append.mp hb).elim (ho.used b) (hn.used b)
  · intro b hb
    exact (mem_append.mp hb).elim (ho.system b) (hn.system b)

theorem Owns.perm (ho : fs.Owns old) (h : old.Perm new) : fs.Owns new :=
  ⟨h.nodup_iff.mp ho.nodup, fun b hb => ho.contains b (h.mem_iff.mpr hb),
    fun b hb => ho.used b (h.mem_iff.mpr hb), fun b hb => ho.system b (h.mem_iff.mpr hb)⟩

theorem Owns.sublist (ho : fs.Owns old) (h : new.Sublist old) : fs.Owns new :=
  ⟨ho.nodup.sublist h, fun b hb => ho.contains b (h.subset hb),
    fun b hb => ho.used b (h.subset hb), fun b hb => ho.system b (h.subset hb)⟩

section

variable (h : fs.Trades fs' old new)

include h

theorem Trades.layout : fs'.layout = fs.layout := by
  obtain ⟨X, -, hmoves⟩ := h.moves
  exact hmoves.layout

theorem Trades.used (hb : fs.layout.Contains b) :
    fs'.blockUsed b = (decide (b ∈ new) || fs.blockUsed b && !decide (b ∈ old)) := by
  obtain ⟨X, -, hmoves⟩ := h.moves
  exact hmoves.used_eq b hb

theorem Trades.image (hsys : b ∉ fs.layout.systemBids) (hused : fs.blockUsed b = true)
    (hb : b ∉ old) : fs'.image b = fs.image b := by
  obtain ⟨X, hX, hmoves⟩ := h.moves
  have hout : b ∉ X := fun hin => by
    rcases hX b hin with hin | ⟨-, hclear⟩
    · exact hb hin
    · simp [hused] at hclear
  exact hmoves.image b hsys hout hout

theorem Trades.steady (hs : fs.Steady) (hold : ∀ b ∈ old, b ∉ fs.layout.systemBids) : fs'.Steady := by
  obtain ⟨X, -, hmoves⟩ := h.moves
  refine hmoves.steady hs fun b hb hc => ?_
  have hout : b ∉ old := fun hin => hold b hin hb
  simp [hs.system b hb hc, hout]

theorem Trades.owns (hs : fs.Steady) (ho : fs.Owns old) (hnodup : new.Nodup) : fs'.Owns new where
  nodup := hnodup
  contains b hb := by
    rw [h.layout]
    exact (h.origin b hb).1
  used b hb := by simp [h.used (h.origin b hb).1, hb]
  system b hb := by
    rw [h.layout]
    obtain ⟨hc, hold | hclear⟩ := h.origin b hb
    · exact ho.system b hold
    · exact hs.not_system hc hclear

end

theorem Trades.refl (hr : fs.Ready) (ho : fs.Owns old) : fs.Trades fs old old where
  origin b hb := ⟨ho.contains b hb, .inl hb⟩
  moves := by
    refine ⟨∅, by simp, (Moves.refl hr).weaken (fun b _ => ?_) subset_rfl subset_rfl⟩
    by_cases hb : b ∈ old
    · simp [hb, ho.used b hb]
    · simp [hb]

theorem Trades.trans (h1 : fs.Trades fs' old mid) (h2 : fs'.Trades fs'' mid new) :
    fs.Trades fs'' old new where
  origin b hb := by
    obtain ⟨hc, hmid | hclear⟩ := h2.origin b hb
    · exact h1.origin b hmid
    · rw [h1.layout] at hc
      rw [h1.used hc] at hclear
      refine ⟨hc, ?_⟩
      by_cases hold : b ∈ old
      · exact .inl hold
      · exact .inr (by simpa [hold] using (Bool.or_eq_false_iff.mp hclear).2)
  moves := by
    obtain ⟨X, hX, hm1⟩ := h1.moves
    obtain ⟨Y, hY, hm2⟩ := h2.moves
    refine ⟨X ∪ Y, ?_, (hm1.trans hm2).weaken (fun b hb => ?_) subset_rfl subset_rfl⟩
    · rintro b (hb | hb)
      · exact hX b hb
      · rcases hY b hb with hmid | ⟨hc, hclear⟩
        · obtain ⟨hc, hold | hclear⟩ := h1.origin b hmid
          · exact .inl hold
          · exact .inr ⟨hc, hclear⟩
        · rw [hm1.layout] at hc
          rw [hm1.used_eq b hc, Bool.or_eq_false_iff] at hclear
          by_cases hold : b ∈ old
          · exact .inl hold
          · exact .inr ⟨hc, by simpa [hold] using hclear.2⟩
    · have horigin := h1.origin b
      rw [hm1.used_eq b hb]
      cases hused : fs.blockUsed b with
      | false => by_cases hmid : b ∈ mid <;> simp [hmid]
      | true =>
        by_cases hmid : b ∈ mid
        · have hold : b ∈ old := by simpa [hused] using (horigin hmid).2
          simp [hmid, hold]
        · simp [hmid]

theorem Frees.trades (h : fs.Frees fs' freed) (ho : fs.Owns old) (hperm : old.Perm (freed ++ mid)) :
    fs.Trades fs' old mid where
  origin b hb := by
    have hold : b ∈ old := hperm.mem_iff.mpr (mem_append_right _ hb)
    exact ⟨ho.contains b hold, .inl hold⟩
  moves := by
    refine ⟨{b | b ∈ freed}, fun b hb => .inl (hperm.mem_iff.mpr (mem_append_left _ hb)),
      Moves.weaken h (fun b _ => ?_) (Set.empty_subset _) subset_rfl⟩
    have hdisj := nodup_append.mp (hperm.nodup_iff.mp ho.nodup)
    have hmem : b ∈ old ↔ b ∈ freed ∨ b ∈ mid := by rw [hperm.mem_iff, mem_append]
    by_cases hold : b ∈ old
    · rw [ho.used b hold]
      rcases hmem.mp hold with hb | hb
      · have hmid : b ∉ mid := fun hmid => hdisj.2.2 b hb b hmid rfl
        simp [hold, hb, hmid]
      · have hfreed : b ∉ freed := fun hfreed => hdisj.2.2 b hfreed b hb rfl
        simp [hb, hfreed]
    · rw [hmem, not_or] at hold
      simp [hold, hmem]

theorem Frees.funds (h : fs.Frees fs' freed) {S : Finset Nat} (hf : fs.Funds S n) (hS : fs.layout.systemBids ⊆ S)
    (hout : ∀ b ∈ S, b ∉ freed) : fs'.Funds S n where
  live := h.mode.trans hf.live
  synced := h.synced hf.live (fun b hb => ⟨by simp, hout b (hS hb)⟩) hf.synced
  covers := h.credits S n hS (by simp) hout hf.covers

end Fs

structure Stands (s : TreeFs) (extents : List Extent) (external : List Nat) : Prop where
  steady : s.fs.Steady
  shaped : Shaped s.fs.image s.tree.root extents external
  sound : Sound extents
  ordered : Ordered extents
  owns : s.fs.Owns (dataBlocks extents ++ external)
  sectors : s.tree.sectorCount = sectorsPerBlock * ((dataBlocks extents).length + external.length)

def Reaches (s s' : TreeFs) (old : List Nat) (bindings : List Binding) : Prop :=
  ∃ extents external, Stands s' extents external ∧ (contents extents).Perm bindings ∧
    s.fs.Trades s'.fs old (dataBlocks extents ++ external)

def Becomes (s s' : TreeFs) (old : List Nat) (extents : List Extent) : Prop :=
  ∃ external, Stands s' extents external ∧ s.fs.Trades s'.fs old (dataBlocks extents ++ external)

variable {s s' : TreeFs} {extents extents' kept freed : List Extent} {old external data : List Nat}
  {funded grows : Prop}

theorem Becomes.reaches (h : Becomes s s' old extents) {bindings : List Binding}
    (hperm : (contents extents).Perm bindings) : Reaches s s' old bindings := by
  obtain ⟨external, hst, htrades⟩ := h
  exact ⟨extents, external, hst, hperm, htrades⟩

theorem dataBlocks_perm (h : (contents extents).Perm (contents extents')) :
    (dataBlocks extents).Perm (dataBlocks extents') := h.map _

theorem dataBlocks_append (extents extents' : List Extent) :
    dataBlocks (extents ++ extents') = dataBlocks extents ++ dataBlocks extents' := by
  simp [dataBlocks]

theorem length_dataBlocks (extents : List Extent) : (dataBlocks extents).length = totalLen extents := by
  rw [dataBlocks, length_map, length_contents]

theorem TreeFs.flatten_eq (h : Shaped s.fs.image s.tree.root extents external) :
    TreeFs.flatten s = (.ok (extents, external), s) := by
  have hread : s.tree.flatten s.fs = (.ok (extents, external), s.fs) := Ext4.flatten_eq h
  change (TreeFs.onFs s.tree.flatten) s = _
  rw [TreeFs.onFs, Op.zoom, hread]

theorem Stands.flatten (h : Stands s extents external) :
    TreeFs.flatten s = (.ok (extents, external), s) := TreeFs.flatten_eq h.shaped

theorem Stands.lookup (h : Stands s extents external) (ib : Nat) :
    s.tree.lookup ib s.fs = (.ok (extents.find? fun e => e.covers ib), s.fs) :=
  lookup_eq h.shaped h.ordered ib

section

variable (h : Rebuilt s s' extents' external external' delta) (ho : s.fs.Owns (data ++ external)) (hdata : (dataBlocks extents').Perm data)

include h ho hdata

theorem Rebuilt.nodup_owned : (dataBlocks extents' ++ external').Nodup := by
  obtain ⟨hnodup, -, hdisj⟩ := nodup_append.mp ho.nodup
  refine nodup_append.mpr ⟨hdata.nodup_iff.mpr hnodup, h.nodup, ?_⟩
  rintro b hb _ hb' rfl
  have hin := hdata.mem_iff.mp hb
  rcases (h.origin b hb').2 with hold | hclear
  · exact hdisj b hin b hold rfl
  · rw [ho.used b (mem_append_left _ hin)] at hclear
    cases hclear

theorem Rebuilt.trades :
    s.fs.Trades s'.fs (data ++ external) (dataBlocks extents' ++ external') where
  origin b hb := by
    rcases mem_append.mp hb with hb | hb
    · have hin := mem_append_left external (hdata.mem_iff.mp hb)
      exact ⟨ho.contains b hin, .inl hin⟩
    · obtain ⟨hc, hold | hclear⟩ := h.origin b hb
      · exact ⟨hc, .inl (mem_append_right _ hold)⟩
      · exact ⟨hc, .inr hclear⟩
  moves := by
    refine ⟨{b | b ∈ external'} ∪ {b | b ∈ external}, ?_, h.moves.weaken (fun b _ => ?_)
      Set.subset_union_left (fun b hb => .inr hb.1)⟩
    · rintro b (hb | hb)
      · obtain ⟨hc, hold | hclear⟩ := h.origin b hb
        · exact .inl (mem_append_right _ hold)
        · exact .inr ⟨hc, hclear⟩
      · exact .inl (mem_append_right _ hb)
    · have hdisj := (nodup_append.mp ho.nodup).2.2
      by_cases hb : b ∈ data
      · have hout : b ∉ external := fun hin => hdisj b hb b hin rfl
        simp [hdata.mem_iff, hb, hout, ho.used b (mem_append_left _ hb)]
      · simp [hdata.mem_iff, hb]

end

theorem rebuild_ends (hs : s.fs.Steady) (hshape : Shaped s.fs.image s.tree.root extents external)
    (ho : s.fs.Owns (data ++ external)) (hsound : Sound extents') (hord : Ordered extents')
    (hdata : (dataBlocks extents').Perm data)
    (hfund : funded → s.fs.Funds (s.fs.layout.systemBids ∪ external.toFinset)
      (externalNodeCount extents'.length - external.length))
    {count : TreeDelta → Int} {blocks : Int} (hcount : ∀ delta, count delta = delta.netMeta + blocks)
    (hsectors : s.tree.sectorCount + blocks * sectorsPerBlock = sectorsPerBlock * (data.length + external.length)) :
    (do
      let delta ← reserialize g csumSeed extents' external
      TreeFs.account (count delta)).Ends s
      (fun _ s' => Becomes s s' (data ++ external) extents')
      fun _ s' => Foiled s funded (external.length < externalNodeCount extents'.length) s' := by
  refine (reserialize_ends hs (ho.sublist (sublist_append_right _ _)) (fun b hb =>
    hshape.readable hb) hsound.valid hfund hshape.length_le).bind fun delta s1 h1 => ?_
  obtain ⟨external', h1⟩ := h1
  have htrades := h1.trades ho hdata
  refine .modify ⟨external', ⟨htrades.steady hs ho.system, h1.shaped, hsound, hord,
    htrades.owns hs ho (h1.nodup_owned ho hdata), ?_⟩, htrades⟩
  have hnet := h1.net
  have hcount := hcount delta
  have hlen := hdata.length_eq
  simp only [h1.sectorCount, sectorsPerBlock] at *
  omega

section Insert

variable {e : Extent} {lo hi : Nat}

theorem insert_ends (h : Stands s extents external) (hsound : Sound (extents ++ [e]))
    (ho : s.fs.Owns (dataBlocks (extents ++ [e]) ++ external))
    (hfund : funded → s.fs.Funds (s.fs.layout.systemBids ∪ external.toFinset)
      (externalNodeCount (mergeExtents (extents ++ [e])).length - external.length)) :
    (insert g csumSeed e.block e.start e.len e.kind).Ends s
      (fun _ s' => Reaches s s' (dataBlocks (extents ++ [e]) ++ external) (contents (extents ++ [e])))
      fun _ s' => Foiled s funded
        (external.length < externalNodeCount (mergeExtents (extents ++ [e])).length) s' := by
  have hmerge := contents_mergeExtents (extents ++ [e])
  refine .bind_of_eq h.flatten ((rebuild_ends h.steady h.shaped ho hsound.mergeExtents.1
    hsound.mergeExtents.2 (dataBlocks_perm hmerge) hfund (fun delta => Int.add_comm _ _) ?_
     ).mono (fun _ s' hr => hr.reaches hmerge) fun _ _ hf => hf)
  have hsectors := h.sectors
  simp only [dataBlocks_append, length_append, length_dataBlocks [e], totalLen, map_cons,
    map_nil, sum_cons, sum_nil, sectorsPerBlock] at *
  omega

theorem Extent.convert_of_not_overlaps (h : (e.isUnwritten && e.overlapsRange lo hi) = false) :
    e.convert lo hi = [e] := by
  rw [convert, if_pos]
  simp only [overlapsRange, Bool.and_eq_false_iff, decide_eq_false_iff_not, Bool.or_eq_true,
    Bool.not_eq_true', decide_eq_true_eq] at h ⊢
  rcases h with h | h | h
  · exact .inl (.inl h)
  · exact .inr (not_lt.mp h)
  · exact .inl (.inr (not_lt.mp h))

theorem convertUnwritten_ends (h : Stands s extents external) {ib len : Nat} (hlen : 0 < len)
    (hfund : funded → s.fs.Funds (s.fs.layout.systemBids ∪ external.toFinset)
      (externalNodeCount (mergeExtents (extents.flatMap (convert ib (ib + len)))).length - external.length)) :
    (convertUnwritten g csumSeed ib len).Ends s
      (fun _ s' => Reaches s s' (dataBlocks extents ++ external) ((contents extents).map (mark ib (ib + len))))
      fun _ s' => Foiled s funded (external.length <
        externalNodeCount (mergeExtents (extents.flatMap (convert ib (ib + len)))).length) s' := by
  have hlt : ib < ib + len := Nat.lt_add_of_pos_right hlen
  have hconvert := h.sound.convert hlt
  refine .bind_of_eq h.flatten ?_
  dsimp only
  split
  next hany =>
    have hsound := h.sound.converted hlt
    have hmerge := contents_mergeExtents (extents.flatMap (convert ib (ib + len)))
    have hdata : (dataBlocks (mergeExtents (extents.flatMap (convert ib (ib + len))))).Perm
        (dataBlocks extents) := by
      refine (dataBlocks_perm hmerge).trans (.of_eq ?_)
      rw [dataBlocks, hconvert, map_map]
      exact map_congr_left fun x _ => block_mark x
    refine (rebuild_ends h.steady h.shaped h.owns hsound.mergeExtents.1 hsound.mergeExtents.2 hdata
      hfund (fun delta => (Int.add_zero _).symm) ?_).mono
      (fun _ s' hr => hr.reaches (hconvert ▸ hmerge)) fun _ _ hf => hf
    rw [h.sectors]
    push_cast
    ring
  next hany =>
    have hsame : extents.flatMap (convert ib (ib + len)) = extents := by
      have hall : ∀ e ∈ extents, e.convert ib (ib + len) = [e] := fun e he =>
        convert_of_not_overlaps (Bool.eq_false_iff.mpr fun hov =>
          hany (any_eq_true.mpr ⟨e, he, hov⟩))
      rw [flatMap_congr hall, flatMap_singleton']
    rw [hsame] at hconvert
    exact .ret ⟨extents, external, h, .of_eq hconvert, .refl h.steady.ready h.owns⟩

end Insert

section Shrink

variable {fs : Fs} {e : Extent} {b : Nat} {p : Binding → Bool} {stopped : Bool} {lo hi : Nat}

structure Halted (s : TreeFs) (funded : Prop) (s' : TreeFs) : Prop where
  carries : s.fs.Carries s'.fs
  kept : funded → s'.fs.aborted = true ∨ s' = s

section

variable (policy : DataForgetPolicy) (start count : Nat)

theorem DataForgetPolicy.authorize_start :
    (policy.authorize start count).start = start := by
  cases policy <;> rfl

theorem DataForgetPolicy.authorize_count :
    (policy.authorize start count).count = count := by
  cases policy <;> rfl

end

theorem mem_dataBlocks_single : b ∈ dataBlocks [e] ↔ e.start ≤ b ∧ b < e.start + e.len := by
  simp only [dataBlocks, contents_cons, contents_nil, append_nil, cells, map_map,
    mem_map, mem_range, Function.comp_apply]
  constructor
  · rintro ⟨i, hi, rfl⟩
    omega
  · intro hb
    exact ⟨b - e.start, by omega, by omega⟩

theorem freeExtent_ends (hr : fs.Ready) (hw : fs.layout.Wf) (hc : ∀ b ∈ dataBlocks [e], fs.layout.Contains b) :
    (freeBlocks g (policy.authorize e.start e.len)).Ends fs
      (fun _ fs' => fs.Frees fs' (dataBlocks [e])) fun _ fs' => fs.Spoiled fs' := by
  have hstart := policy.authorize_start e.start e.len
  have hcount := policy.authorize_count e.start e.len
  have hrun : ∀ b, b ∈ run e.start e.len ↔ b ∈ dataBlocks [e] := fun b => mem_dataBlocks_single.symm
  refine (freeBlocks_ends hr hw g _ fun b hb => hc b ?_).mono (fun _ fs' h => ?_) fun _ _ h => h
  · rw [hstart, hcount] at hb
    exact (hrun b).mp hb
  · rw [hstart, hcount] at h
    refine Moves.weaken h (fun b _ => ?_) subset_rfl fun b hb => (hrun b).mp hb
    simp [dropped, IdRange.contains, mem_dataBlocks_single]

def Reserves (fs : Fs) (need : Nat) : Prop := ∀ h, fs.handle = some h → need ≤ h.remaining

theorem tryReserveNext_granted {need : Nat} (hres : Reserves fs need) :
    (tryReserveNext g need).Ends fs (fun outcome _ => outcome = .granted) fun _ _ => True := by
  unfold Op.Ends tryReserveNext underHandle
  cases hh : fs.handle with
  | none => exact rfl
  | some h =>
    cases fs.journal with
    | none => trivial
    | some j =>
      dsimp only
      rw [JournalState.tryReserveNext, if_pos (hres h hh)]

theorem probe_ends (hr : fs.Ready) (chunked : Bool) (need : Nat) :
    (probe g chunked need).Ends fs
      (fun stop fs' => (chunked = false ∨ Reserves fs need → stop = false) ∧ fs.Frees fs' [])
      fun _ fs' => fs.Spoiled fs' := by
  refine .bind_get ?_
  split
  next hc =>
    have hgrant : (tryReserveNext g need).Ends fs
        (fun outcome _ => Reserves fs need → outcome = .granted) fun _ _ => True :=
      .intro (fun outcome fs' hrun hres => (tryReserveNext_granted hres).of_ok hrun) fun _ _ _ => trivial
    refine ((tryReserveNext_ends hr need).and hgrant).bindOr (fun _ _ h => h.1.elim) fun outcome fs1 h1 => .ret ⟨?_, ?_⟩
    · rintro (hno | hres)
      · simp [hno] at hc
      · simp [h1.2 hres]
    · exact (h1.1.moves (fun _ _ => rfl) (by simp)).weaken (by simp) subset_rfl (by simp)
  next hc => exact .ret ⟨fun _ => rfl, .nil hr⟩

theorem freeDoomed_ends {doomed : List Extent} (hr : fs.Ready) (hw : fs.layout.Wf)
    (chunked : Bool) (need : Nat) (hc : ∀ b ∈ dataBlocks doomed, fs.layout.Contains b) :
    (freeDoomed g policy chunked need doomed).Ends fs
      (fun k fs' => k ≤ doomed.length ∧ (chunked = false → k = doomed.length) ∧
        (Reserves fs need → 0 < k ∨ doomed = [] ∧ fs' = fs) ∧ fs.Frees fs' (dataBlocks (doomed.take k)))
      fun _ fs' => fs.Spoiled fs' := by
  induction doomed generalizing fs with
  | nil => exact .ret ⟨Nat.le_refl _, fun _ => rfl, fun _ => .inr ⟨rfl, rfl⟩, .nil hr⟩
  | cons e rest ih =>
    refine (probe_ends hr chunked need).bind fun stop fs1 h1 => ?_
    obtain ⟨hstop, h1⟩ := h1
    cases stop with
    | true =>
      refine .ret ⟨zero_le, fun hno => ?_, fun hres => ?_, h1⟩
      · exact absurd (hstop (.inl hno)) (by decide)
      · exact absurd (hstop (.inr hres)) (by decide)
    | false =>
      rw [show dataBlocks (e :: rest) = dataBlocks [e] ++ dataBlocks rest from dataBlocks_append [e] rest] at hc
      have hc1 : ∀ b ∈ dataBlocks [e], fs1.layout.Contains b := fun b hb => by
        rw [h1.layout]
        exact hc b (mem_append_left _ hb)
      refine (freeExtent_ends h1.ready (h1.layout ▸ hw) hc1).bindOr (fun _ _ h => h1.spoiled h) fun _ fs2 h2 => ?_
      have hone : fs.Frees fs2 (dataBlocks [e]) := h1.append h2
      have hc2 : ∀ b ∈ dataBlocks rest, fs2.layout.Contains b := fun b hb => by
        rw [hone.layout]
        exact hc b (mem_append_right _ hb)
      refine (ih hone.ready (hone.layout ▸ hw) hc2).bindOr (fun _ _ h => hone.spoiled h) fun k fs3 h3 => .ret ?_
      obtain ⟨hle, hall, -, h3⟩ := h3
      refine ⟨Nat.succ_le_succ hle, fun hno => by simp [hall hno], fun _ => .inl (Nat.succ_pos k), ?_⟩
      rw [take_succ_cons, show dataBlocks (e :: rest.take k) =
        dataBlocks [e] ++ dataBlocks (rest.take k) from dataBlocks_append [e] _]
      exact hone.append h3

theorem externalNodeCount_mono {m : Nat} (h : m ≤ n) : externalNodeCount m ≤ externalNodeCount n := by
  unfold externalNodeCount
  simp only [show inlineMax = 4 from rfl, show leafMax = 340 from rfl, show interiorMax = 340 from rfl]
  repeat' split
  all_goals omega

theorem shrinkTree_ends (h : Stands s extents external) (hcut : Cuts extents kept freed p)
    (hfree : s.fs.Frees fs (dataBlocks freed))
    (hfund : funded → s.fs.Funds (s.fs.layout.systemBids ∪ external.toFinset) 0 ∧
      externalNodeCount kept.length ≤ external.length) :
    (shrinkTree g csumSeed kept external (totalLen freed)).Ends { s with fs := fs }
      (fun _ s' => Becomes s s' (dataBlocks extents ++ external) (sortByBlock kept))
      fun _ s' => Halted s funded s' := by
  have hsplit : (dataBlocks extents).Perm (dataBlocks freed ++ dataBlocks kept) := by
    refine (hcut.perm.map fun x => x.2.1).symm.trans ?_
    rw [map_append]
    exact perm_append_comm
  have hperm : (dataBlocks extents ++ external).Perm
      (dataBlocks freed ++ (dataBlocks kept ++ external)) := by
    rw [← append_assoc]
    exact hsplit.append_right external
  have htrades := hfree.trades h.owns hperm
  have hnodup := (nodup_append.mp (hperm.nodup_iff.mp h.owns.nodup))
  have hout : ∀ b ∈ external, b ∉ dataBlocks freed := fun b hb hin =>
    hnodup.2.2 b hin b (mem_append_right _ hb) rfl
  have hshape : Shaped fs.image s.tree.root extents external := h.shaped.congr fun b hb =>
    hfree.image b (h.owns.system b (mem_append_right _ hb)) (by simp) (hout b hb)
  have hsort := sortByBlock_perm kept
  have hsound := hcut.sound h.sound
  have hlen := hsort.length_eq
  have hfunds : funded → fs.Funds (fs.layout.systemBids ∪ external.toFinset)
      (externalNodeCount (sortByBlock kept).length - external.length) := fun hf => by
    obtain ⟨hfunds, hnone⟩ := hfund hf
    rw [hlen, Nat.sub_eq_zero_of_le hnone, show fs.layout = s.fs.layout from hfree.layout]
    refine hfree.funds hfunds Finset.subset_union_left fun b hb => ?_
    rcases Finset.mem_union.mp hb with hb | hb
    · exact fun hin => h.owns.system b (hperm.mem_iff.mpr (mem_append_left _ hin)) hb
    · exact hout b (mem_toFinset.mp hb)
  refine (rebuild_ends (s := { s with fs := fs }) (htrades.steady h.steady h.owns.system) hshape
    (htrades.owns h.steady h.owns hnodup.2.1) (hsound.perm hsort.symm) hsound.sortByBlock
    (dataBlocks_perm (contents_perm hsort)) hfunds (fun delta => Int.sub_eq_add_neg) ?_
   ).mono (fun _ s' hr => ?_) fun _ s' hfail => ⟨hfree.carries.trans hfail.carries, fun hf => ?_⟩
  · have hsectors := h.sectors
    have hcount := hsplit.length_eq
    rw [length_append, length_dataBlocks freed] at hcount
    simp only [sectorsPerBlock] at *
    omega
  · obtain ⟨external', hst, hmore⟩ := hr
    exact ⟨external', hst, htrades.trans hmore⟩
  · rcases hfail.kept hf with habort | ⟨-, -, hgrows⟩
    · exact .inl habort
    · rw [hlen] at hgrows
      exact absurd hgrows (not_lt.mpr (hfund hf).2)

theorem probeTail_ends (hr : fs.Ready) (chunked : Bool) (need : Nat) (stopped : Bool) :
    (probeTail g chunked need stopped).Ends fs
      (fun stop fs' => (stopped = true → stop = true) ∧
        (chunked = false ∨ Reserves fs need → stopped = false → stop = false) ∧ fs.Frees fs' [])
      fun _ fs' => fs.Spoiled fs' := by
  cases stopped with
  | true => exact .ret ⟨fun _ => rfl, fun _ hno => hno, .nil hr⟩
  | false =>
    exact (probe_ends hr chunked need).mono
      (fun _ _ h => ⟨fun hno => absurd hno (by decide), fun hgo _ => h.1 hgo, h.2⟩) fun _ _ h => h

structure Tailed (extents : List Extent) (keep : Nat) (stopped : Bool) (rest cut : List Extent) : Prop where
  split : rest = (extents.find? (Extent.straddles keep)).toList ∧ cut = [] ∨
    ∃ e, extents.find? (Extent.straddles keep) = some e ∧ stopped = false ∧
      rest = [⟨e.block, keep - e.block, e.start, e.kind⟩] ∧ cut = [e.piece keep e.stop]

theorem freeTail_ends (hr : fs.Ready) (hw : fs.layout.Wf) (chunked : Bool) (need keep : Nat) (stopped : Bool)
    (hc : ∀ b ∈ dataBlocks extents, fs.layout.Contains b) :
    (freeTail g policy chunked need keep stopped (extents.find? (straddles keep))).Ends fs
      (fun r fs' => ∃ cut, Tailed extents keep stopped r.1 cut ∧ r.2 = totalLen cut ∧ fs.Frees fs' (dataBlocks
        cut) ∧ (chunked = false ∨ Reserves fs need → stopped = false → frontier r.1 ≤ keep))
      fun _ fs' => fs.Spoiled fs' := by
  cases hfind : extents.find? (straddles keep) with
  | none =>
    refine .ret ⟨[], ⟨.inl ⟨by simp [hfind], rfl⟩⟩, rfl, .nil hr, fun _ _ => zero_le⟩
  | some e =>
    obtain ⟨hmem, hlo, hhi⟩ := straddler_spec hfind
    refine (probeTail_ends hr chunked need stopped).bind fun stop fs1 h1 => ?_
    obtain ⟨hstop, hgo, h1⟩ := h1
    cases stop with
    | true =>
      refine .ret ⟨[], ⟨.inl ⟨by simp [hfind], rfl⟩⟩, rfl, h1, fun hno hrun => ?_⟩
      exact absurd (hgo hno hrun) (by decide)
    | false =>
      have hlen : e.len - (keep - e.block) = (e.piece keep e.stop).len := by
        simp only [piece, stop] at *
        omega
      have hsub : ∀ b ∈ dataBlocks [e.piece keep e.stop], fs1.layout.Contains b := fun b hb => by
        rw [h1.layout]
        refine hc b ?_
        rw [mem_dataBlocks_single] at hb
        have hin : b ∈ dataBlocks [e] := by
          rw [mem_dataBlocks_single]
          simp only [piece, stop] at *
          omega
        obtain ⟨x, hx, rfl⟩ := mem_map.mp hin
        exact mem_map.mpr ⟨x, mem_contents.mpr ⟨e, hmem, by simpa using hx⟩, rfl⟩
      simp only [Bool.false_eq_true, if_false]
      rw [hlen]
      refine (freeExtent_ends h1.ready (h1.layout ▸ hw) hsub).bindOr (fun _ _ h => h1.spoiled h) fun _ fs2 h2 => .ret ?_
      refine ⟨[e.piece keep e.stop], ⟨.inr ⟨e, hfind, ?_, rfl, rfl⟩⟩, by simp [totalLen], ?_, fun _ _ => ?_⟩
      · cases stopped with
        | false => rfl
        | true => exact absurd (hstop rfl) (by decide)
      · exact h1.append h2
      · refine frontier_le fun a ha => ?_
        rw [mem_singleton.mp ha]
        simp only [stop]
        omega

section

variable {k keep : Nat} {rest cut : List Extent} (hs : Sound extents) (ho : Ordered extents) (ht : Tailed extents keep stopped rest cut)
include hs ho ht

theorem Tailed.cuts (hk : stopped = false → (doomedAbove keep extents).length ≤ k) :
    Cuts extents (keptBelow keep extents ++ (doomedAbove keep extents).drop k ++ rest)
      ((doomedAbove keep extents).take k ++ cut)
      (below (max keep (frontier (keptBelow keep extents ++ (doomedAbove keep extents).drop k ++ rest)))) := by
  rcases ht.split with ⟨rfl, rfl⟩ | ⟨e, hfind, hgo, rfl, rfl⟩
  · rw [append_nil]
    exact hs.truncate_cuts ho keep k
  · exact hs.truncate_all ho hfind (hk hgo)

theorem Tailed.length_le :
    (keptBelow keep extents ++ (doomedAbove keep extents).drop k ++ rest).length ≤ extents.length := by
  have hsplit := congrArg length (ho.split (fun e he => (hs.valid e he).pos) keep)
  have hdoomed := (sortDescending_perm (extents.filter fun e => keep ≤ e.block)).length_eq
  have hrest : rest.length ≤ (extents.find? (straddles keep)).toList.length := by
    rcases ht.split with ⟨rfl, -⟩ | ⟨e, hfind, -, rfl, -⟩
    · exact le_rfl
    · simp [hfind]
  simp only [length_append, length_drop, doomedAbove, keptBelow] at *
  omega

end

theorem totalLen_append (extents extents' : List Extent) :
    totalLen (extents ++ extents') = totalLen extents + totalLen extents' := by
  simp [totalLen]

structure Sheared (extents : List Extent) (keep : Nat) (chunked : Bool) (reserved : Prop) (k : Nat)
    (rest cut : List Extent) : Prop where
  le : k ≤ (doomedAbove keep extents).length
  tail : Tailed extents keep (decide (k < (doomedAbove keep extents).length)) rest cut
  whole : chunked = false → k = (doomedAbove keep extents).length ∧ frontier rest ≤ keep
  forward : reserved → 0 < k ∨ doomedAbove keep extents = [] ∧ frontier rest ≤ keep

def shearedKept (extents : List Extent) (keep k : Nat) (rest : List Extent) : List Extent :=
  keptBelow keep extents ++ (doomedAbove keep extents).drop k ++ rest

namespace Sheared

variable {keep k : Nat} {chunked : Bool} {reserved : Prop} {rest cut : List Extent}

theorem cuts (h : Sheared extents keep chunked reserved k rest cut) (hs : Sound extents) (ho : Ordered extents) :
    Cuts extents (shearedKept extents keep k rest) ((doomedAbove keep extents).take k ++ cut)
      (below (max keep (frontier (shearedKept extents keep k rest)))) :=
  h.tail.cuts hs ho fun hgo => by simpa using hgo

end Sheared

theorem frontier_shearedKept {keep k : Nat} {rest : List Extent} (hk : (doomedAbove keep extents).length ≤ k)
    (hrest : frontier rest ≤ keep) : frontier (shearedKept extents keep k rest) ≤ keep := by
  rw [shearedKept, drop_eq_nil_of_le hk, append_nil]
  exact frontier_append (frontier_keptBelow _ _) hrest

section

variable (h : Stands s extents external) (hfund : funded → s.fs.Funds (s.fs.layout.systemBids ∪ external.toFinset) 0) (newSize : Nat) (maxCredits : Option Nat)

include h hfund newSize maxCredits

theorem truncateChunk_shears :
    (truncateChunk g csumSeed policy newSize maxCredits).Ends s
      (fun r s' => ∃ k rest cut, Sheared extents (keepBlocks newSize) maxCredits.isSome (Reserves s.fs
          (extentFreeCredits + s.fs.truncateChunkCredits (externalNodeCount extents.length))) k rest cut ∧
          Becomes s s' (dataBlocks extents ++ external) (sortByBlock (shearedKept extents (keepBlocks newSize)
          k rest)) ∧ r = ⟨frontier (shearedKept extents (keepBlocks newSize) k rest), extentFreeCredits +
          s'.fs.truncateChunkCredits (externalNodeCount (shearedKept extents (keepBlocks newSize) k
          rest).length)⟩)
      fun _ s' => Halted s funded s' := by
  have hhalt : ∀ {fs' : Fs}, s.fs.Spoiled fs' → Halted s funded { s with fs := fs' } := fun hsp =>
    ⟨hsp.1, fun hf => .inl (hsp.2 (hfund hf).live)⟩
  have hcount : externalNodeCount extents.length = external.length := h.shaped.count.symm
  refine .bind_of_eq h.flatten (.bind_get ?_)
  simp only [h.ordered.sortByBlock]
  split
  next => exact .fail ⟨⟨h.steady.ready, rfl, id⟩, fun _ => .inr rfl⟩
  next =>
  have hcontains : ∀ b ∈ dataBlocks extents, s.fs.layout.Contains b := fun b hb =>
    h.owns.contains b (mem_append_left _ hb)
  have hdoomed : ∀ b ∈ dataBlocks (doomedAbove (keepBlocks newSize) extents), s.fs.layout.Contains b :=
    fun b hb => by
      obtain ⟨x, hx, rfl⟩ := mem_map.mp hb
      obtain ⟨e, he, hxe⟩ := mem_contents.mp hx
      exact hcontains _ (mem_map.mpr ⟨x, mem_contents.mpr ⟨e, (mem_doomedAbove he).1, hxe⟩, rfl⟩)
  generalize hneed : extentFreeCredits + s.fs.truncateChunkCredits (externalNodeCount extents.length) = need
  refine Op.Ends.bind (Q := fun k s1 => k ≤ (doomedAbove (keepBlocks newSize) extents).length ∧
    (maxCredits.isSome = false → k = (doomedAbove (keepBlocks newSize) extents).length) ∧
    (Reserves s.fs need → 0 < k ∨ doomedAbove (keepBlocks newSize) extents = [] ∧ s1.fs = s.fs) ∧
    ∃ fs1, s1 = { s with fs := fs1 } ∧
      s.fs.Frees fs1 (dataBlocks ((doomedAbove (keepBlocks newSize) extents).take k))) ?_
    fun k s1 h1 => ?_
  · exact .zoom ((freeDoomed_ends h.steady.ready h.steady.wf _ _ hdoomed).mono
      (fun k fs1 h1 => ⟨h1.1, h1.2.1, h1.2.2.1, fs1, rfl, h1.2.2.2⟩) fun _ fs1 h1 => hhalt h1)
  obtain ⟨hk, hall, hforward, fs1, rfl, hfree⟩ := h1
  dsimp only at hforward
  refine Op.Ends.bind (Q := fun r s2 => ∃ cut, Sheared extents (keepBlocks newSize) maxCredits.isSome
      (Reserves s.fs need) k r.1 cut ∧ r.2 = totalLen cut ∧ ∃ fs2, s2 = { s with fs := fs2 } ∧
      s.fs.Frees fs2 (dataBlocks ((doomedAbove (keepBlocks newSize) extents).take k ++ cut))) ?_
    fun r s2 h2 => ?_
  · refine .zoom ((freeTail_ends hfree.ready (hfree.layout ▸ h.steady.wf) _ _ _ _
      fun b hb => ?_).mono (fun r fs2 h2 => ?_) fun _ fs2 h2 => hhalt (hfree.spoiled h2))
    · rw [hfree.layout]
      exact hcontains b hb
    · obtain ⟨cut, ht, hlen, hcut, hreach⟩ := h2
      refine ⟨cut, ⟨hk, ht, fun hno => ?_, fun hres => ?_⟩, hlen, fs2, rfl, ?_⟩
      · have hk := hall hno
        exact ⟨hk, hreach (.inl hno) (decide_eq_false (not_lt.mpr (le_of_eq hk.symm)))⟩
      · rcases hforward hres with hpos | ⟨hnone, rfl⟩
        · exact .inl hpos
        · have hlen : (doomedAbove (keepBlocks newSize) extents).length ≤ k := by simp [hnone]
          exact .inr ⟨hnone, hreach (.inr hres) (decide_eq_false (not_lt.mpr hlen))⟩
      · rw [dataBlocks_append]
        exact hfree.append hcut
  obtain ⟨rest, tail⟩ := r
  obtain ⟨cut, hsh, rfl, fs2, rfl, hfree⟩ := h2
  dsimp only at hsh ⊢
  rw [← totalLen_append]
  refine (shrinkTree_ends h (hsh.cuts h.sound h.ordered) hfree (fun hf => ⟨hfund hf, ?_⟩)
   ).bind fun _ s3 h3 => .bind_get (.ret ⟨k, rest, cut, hsh, h3, rfl⟩)
  rw [← hcount]
  exact externalNodeCount_mono (hsh.tail.length_le h.sound h.ordered)

theorem truncateChunk_ends :
    (truncateChunk g csumSeed policy newSize maxCredits).Ends s
      (fun r s' => Reaches s s' (dataBlocks extents ++ external) ((contents extents).filter (below (max
          (keepBlocks newSize) r.reached))) ∧ (maxCredits = none → r.reached ≤ keepBlocks newSize))
      fun _ s' => Halted s funded s' := by
  refine (truncateChunk_shears h hfund newSize maxCredits).mono (fun r s' hr => ?_)
    fun _ _ hf => hf
  obtain ⟨k, rest, cut, hsh, hbec, rfl⟩ := hr
  have hcuts := hsh.cuts h.sound h.ordered
  refine ⟨hbec.reaches ((contents_perm (sortByBlock_perm _)).trans hcuts.filter), fun hno => ?_⟩
  obtain ⟨hk, hrest⟩ := hsh.whole (by simp [hno])
  exact frontier_shearedKept (le_of_eq hk.symm) hrest

end

theorem punchChunk_punches (h : Stands s extents external) (hlt : lo < hi)
    (hfund : funded → s.fs.Funds (s.fs.layout.systemBids ∪ external.toFinset) 0 ∧ externalNodeCount
      ((punchedKept lo hi extents).length + (punchedDoomed lo hi extents).length) ≤ external.length)
    (g : JournalGeometry) (csumSeed : Option UInt32) (policy : DataForgetPolicy) (maxCredits : Option Nat) :
    (punchChunk g csumSeed policy lo hi maxCredits).Ends s
      (fun r s' => ∃ k, k ≤ (punchedDoomed lo hi extents).length ∧ (maxCredits = none → k = (punchedDoomed lo
        hi extents).length) ∧ (Reserves s.fs (extentFreeCredits + s.fs.truncateChunkCredits (externalNodeCount
        ((punchedKept lo hi extents).length + (punchedDoomed lo hi extents).length))) → 0 < k ∨ punchedDoomed
        lo hi extents = []) ∧ Becomes s s' (dataBlocks extents ++ external) (sortByBlock (punchedKept lo hi
        extents ++ (punchedDoomed lo hi extents).drop k)) ∧ r = ⟨decide (k < (punchedDoomed lo hi
        extents).length), extentFreeCredits + s'.fs.truncateChunkCredits (externalNodeCount (punchedKept lo hi
        extents ++ (punchedDoomed lo hi extents).drop k).length)⟩)
      fun _ s' => Halted s funded s' := by
  have hhalt : ∀ {fs' : Fs}, s.fs.Spoiled fs' → Halted s funded { s with fs := fs' } := fun hsp =>
    ⟨hsp.1, fun hf => .inl (hsp.2 (hfund hf).1.live)⟩
  unfold punchChunk
  rw [if_neg (not_le.mpr hlt)]
  refine .bind_of_eq h.flatten (.bind_get ?_)
  simp only [h.ordered.sortByBlock]
  split
  next => exact .fail ⟨⟨h.steady.ready, rfl, id⟩, fun _ => .inr rfl⟩
  next =>
  have hdoomed : ∀ b ∈ dataBlocks (punchedDoomed lo hi extents), s.fs.layout.Contains b := fun b hb => by
    have hperm := contents_perm (sortDescending_perm (extents.flatMap (punchDoomed lo hi)))
    obtain ⟨x, hx, rfl⟩ := mem_map.mp hb
    have hx := hperm.mem_iff.mp hx
    rw [h.sound.punchDoomed hlt] at hx
    exact h.owns.contains _ (mem_append_left _ (mem_map.mpr ⟨x, mem_of_mem_filter hx, rfl⟩))
  refine Op.Ends.bind (Q := fun k s1 => k ≤ (punchedDoomed lo hi extents).length ∧
    (maxCredits = none → k = (punchedDoomed lo hi extents).length) ∧
    (Reserves s.fs (extentFreeCredits + s.fs.truncateChunkCredits (externalNodeCount ((punchedKept lo hi
      extents).length + (punchedDoomed lo hi extents).length))) → 0 < k ∨ punchedDoomed lo hi extents = []) ∧
    ∃ fs1, s1 = { s with fs := fs1 } ∧
      s.fs.Frees fs1 (dataBlocks ((punchedDoomed lo hi extents).take k))) ?_ fun k s1 h1 => ?_
  · refine .zoom ((freeDoomed_ends h.steady.ready h.steady.wf _ _ hdoomed).mono
      (fun k fs1 h1 => ?_) fun _ fs1 h1 => hhalt h1)
    obtain ⟨hk, hall, hforward, hfree⟩ := h1
    exact ⟨hk, fun hno => hall (by simp [hno]), fun hres => (hforward hres).imp_right And.left, fs1, rfl, hfree⟩
  obtain ⟨hk, hall, hforward, fs1, rfl, hfree⟩ := h1
  refine (shrinkTree_ends h (h.sound.punch_cuts hlt k) hfree (fun hf => ⟨(hfund hf).1, ?_⟩)
   ).bind fun _ s2 h2 => .bind_get (.ret ⟨k, hk, hall, hforward, h2, rfl⟩)
  refine le_trans (externalNodeCount_mono ?_) (hfund hf).2
  rw [length_append, length_drop]
  omega

theorem punchChunk_ends (h : Stands s extents external)
    (hfund : funded → s.fs.Funds (s.fs.layout.systemBids ∪ external.toFinset) 0 ∧ externalNodeCount
      ((punchedKept lo hi extents).length + (punchedDoomed lo hi extents).length) ≤ external.length)
    (maxCredits : Option Nat) :
    (punchChunk g csumSeed policy lo hi maxCredits).Ends s
      (fun r s' => ∃ c, lo ≤ c ∧ (r.more = false → c = lo) ∧ (maxCredits = none → r.more = false) ∧ Reaches s
        s' (dataBlocks extents ++ external) ((contents extents).filter fun x => !inRange c hi x))
      fun _ s' => Halted s funded s' := by
  by_cases hempty : hi ≤ lo
  · unfold punchChunk
    rw [if_pos hempty]
    refine .ret ⟨lo, le_refl lo, fun _ => rfl, fun _ => rfl, extents, external, h, ?_,
      .refl h.steady.ready h.owns⟩
    refine .of_eq (filter_eq_self.mpr fun x _ => ?_).symm
    simp only [inRange, Bool.not_eq_true', Bool.and_eq_false_iff, decide_eq_false_iff_not]
    omega
  · have hlt : lo < hi := not_le.mp hempty
    refine (punchChunk_punches h hlt hfund g csumSeed policy maxCredits).mono (fun r s' hr => ?_) fun _ _ hf => hf
    obtain ⟨k, hk, hall, -, hbec, rfl⟩ := hr
    refine ⟨punchCut lo hi k extents, le_max_left _ _, fun hmore => ?_, fun hnone => ?_,
      hbec.reaches ((contents_perm (sortByBlock_perm _)).trans (h.sound.punch_cuts hlt k).filter)⟩
    · exact punchCut_all lo hi extents (not_lt.mp (of_decide_eq_false hmore))
    · exact decide_eq_false (not_lt.mpr (le_of_eq (hall hnone).symm))

end Shrink

theorem Stands.evolves (h : Stands s extents external) {fs : Fs} {image : Nat → Option Block} {T : Finset Nat}
    (hev : s.fs.Evolves fs image T) (himage : ∀ b ∈ external, image b = s.fs.image b) :
    Stands { s with fs := fs } extents external where
  steady := by
    refine ⟨hev.ready, hev.layout ▸ h.steady.wf, fun b hb hc => ?_, hev.layout ▸ h.steady.narrow⟩
    rw [hev.layout] at hb hc
    rw [hev.blockUsed]
    exact h.steady.system b hb hc
  shaped := h.shaped.congr fun b hb => (hev.image b).trans (himage b hb)
  sound := h.sound
  ordered := h.ordered
  owns := by
    refine ⟨h.owns.nodup, fun b hb => ?_, fun b hb => ?_, fun b hb => ?_⟩
    · rw [hev.layout]
      exact h.owns.contains b hb
    · rw [hev.blockUsed]
      exact h.owns.used b hb
    · rw [hev.layout]
      exact h.owns.system b hb
  sectors := h.sectors

namespace Specimen

variable (v : Specimen) (g : JournalGeometry)

def bearing (nodes : Nat → Option Block) : Fs :=
  { v.fs g with device := fun b => (nodes b).or (v.device b) }

def holder (nodes : Nat → Option Block) (root : Buffer 60) (extents : List Extent) (external : List Nat) : TreeFs :=
  ⟨⟨root, sectorsPerBlock * ((dataBlocks extents).length + external.length), false⟩, v.bearing g nodes⟩

variable {v g} {nodes : Nat → Option Block} {root : Buffer 60}

theorem bearing_image (b : Nat) : (v.bearing g nodes).image b = (nodes b).or (v.device b) := rfl

theorem owns {bids : List Nat} (hnodup : bids.Nodup) (hrange : ∀ b ∈ bids, 5 ≤ b ∧ b < v.taken) :
    (v.bearing g nodes).Owns bids := by
  have hle := v.taken_le
  refine ⟨hnodup, fun b hb => ⟨zero_le, ?_⟩, fun b hb => ?_, fun b hb hsys => ?_⟩
  · exact lt_of_lt_of_le (hrange b hb).2 hle
  · have hlt := (hrange b hb).2
    refine (v.blockUsed_eq g (lt_of_lt_of_le hlt hle)).trans ?_
    simpa using hlt
  · have hge := (hrange b hb).1
    have hmem : b ∈ (v.fs g).layout.systemBids := hsys
    rw [v.systemBids_eq g] at hmem
    simp only [Finset.mem_insert, Finset.mem_singleton] at hmem
    omega

theorem stands (hshape : Shaped (v.bearing g nodes).image root extents external) (hs : Sound extents)
    (ho : Ordered extents) (hnodup : (dataBlocks extents ++ external).Nodup)
    (hrange : ∀ b ∈ dataBlocks extents ++ external, 5 ≤ b ∧ b < v.taken) :
    Stands (v.holder g nodes root extents external) extents external where
  steady := by
    have hst := v.steady g
    exact ⟨.live ⟨rfl, rfl, (v.live g).serves, (v.live g).credits⟩, hst.wf, hst.system, hst.narrow⟩
  shaped := hshape
  sound := hs
  ordered := ho
  owns := owns hnodup hrange
  sectors := rfl

theorem stands_inline (hlen : extents.length ≤ inlineMax) (hs : Sound extents) (ho : Ordered extents)
    (hnodup : (dataBlocks extents ++ []).Nodup) (hrange : ∀ b ∈ dataBlocks extents ++ [], 5 ≤ b ∧ b < v.taken) :
    Stands (v.holder g nodes (inlineLeafRoot extents) extents []) extents [] :=
  stands (.inline hlen (holds_inlineLeafRoot (fun e he => (hs.valid e he).toEncodable) hlen)) hs ho
    hnodup hrange

theorem funds (h : 4 + n ≤ v.credits) :
    (v.bearing g fun _ => none).Funds ((v.bearing g fun _ => none).layout.systemBids ∪ ∅) n := by
  refine ⟨rfl, v.synced g, v.covers g ?_⟩
  rw [show (v.bearing g fun _ => none).layout.systemBids = {0, 1, 2, 3} from v.systemBids_eq g]
  exact h

end Specimen

end Ext4
