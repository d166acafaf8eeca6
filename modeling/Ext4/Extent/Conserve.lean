import Ext4.Extent.Refine

namespace Ext4

open Function

structure Files (ι : Type) where
  fs : Fs
  tree : ι → ExtentTree

inductive FileEdit where
  | fillHoles (startIblock endIblock : Fin (2 ^ 32)) (bound : AllocBound)
  | markRangeWritten (startIblock endIblock : Nat)
  | truncateChunk (newSize : Nat) (maxCredits : Option Nat)
  | punchChunk (startBlock endBlock : Nat) (maxCredits : Option Nat)

def FileEdit.run (g : JournalGeometry) (csumSeed : Option UInt32) (policy : DataForgetPolicy) :
    FileEdit → TreeOp Unit
  | .fillHoles startIblock endIblock bound => do
    let _ ← Ext4.fillHoles g csumSeed startIblock endIblock bound
    Op.ret ()
  | .markRangeWritten startIblock endIblock => Ext4.markRangeWritten g csumSeed startIblock endIblock
  | .truncateChunk newSize maxCredits => do
    let _ ← Ext4.truncateChunk g csumSeed policy newSize maxCredits
    Op.ret ()
  | .punchChunk startBlock endBlock maxCredits => do
    let _ ← Ext4.punchChunk g csumSeed policy startBlock endBlock maxCredits
    Op.ret ()

structure Fs.Settles (fs fs' : Fs) : Prop where
  steady : fs'.Steady
  layout : fs'.layout = fs.layout
  used : ∀ b, fs'.blockUsed b = fs.blockUsed b
  image : ∀ b, fs'.image b = fs.image b

section Shares

variable {ι : Type} {reserved : Set Nat} {fs fs' : Fs} {own : ι → List Nat} {i : ι} {new : List Nat}

structure Shares (reserved : Set Nat) (fs : Fs) (own : ι → List Nat) : Prop where
  owns : ∀ i, fs.Owns (own i)
  apart : ∀ i j, i ≠ j → ∀ b ∈ own i, b ∉ own j
  covered : ∀ b, fs.layout.Contains b → fs.blockUsed b = true → b ∈ reserved ∨ ∃ i, b ∈ own i
  held : ∀ b ∈ reserved, fs.layout.Contains b → fs.blockUsed b = true ∧ ∀ i, b ∉ own i

section

variable (h : Shares reserved fs own) (ht : fs.Trades fs' (own i) new)

include h ht

theorem Shares.keeps {j : ι} (hj : j ≠ i) :
    fs'.Owns (own j) where
  nodup := (h.owns j).nodup
  contains b hb := by
    rw [ht.layout]
    exact (h.owns j).contains b hb
  used b hb := by
    simp [ht.used ((h.owns j).contains b hb), (h.owns j).used b hb, h.apart j i hj b hb]
  system b hb := by
    rw [ht.layout]
    exact (h.owns j).system b hb

theorem Shares.origin {j : ι} (hj : j ≠ i) {b : Nat} (hb : b ∈ new) : b ∉ own j := by
  intro hown
  rcases (ht.origin b hb).2 with hin | hclear
  · exact h.apart j i hj b hown hin
  · rw [(h.owns j).used b hown] at hclear
    cases hclear

end

theorem Shares.trade [DecidableEq ι] (h : Shares reserved fs own) (hs : fs.Steady) (ht : fs.Trades fs' (own i) new) (hnodup : new.Nodup) :
    Shares reserved fs' (update own i new) where
  owns j := by
    rcases eq_or_ne j i with rfl | hj
    · rw [update_self]
      exact ht.owns hs (h.owns j) hnodup
    · rw [update_of_ne hj]
      exact h.keeps ht hj
  apart j k hjk b hb := by
    rcases eq_or_ne j i with rfl | hj
    · rw [update_self] at hb
      rw [update_of_ne hjk.symm]
      exact h.origin ht hjk.symm hb
    · rw [update_of_ne hj] at hb
      rcases eq_or_ne k i with rfl | hk
      · rw [update_self]
        exact fun hnew => h.origin ht hj hnew hb
      · rw [update_of_ne hk]
        exact h.apart j k hjk b hb
  covered b hc hused := by
    rw [ht.layout] at hc
    rw [ht.used hc, Bool.or_eq_true, decide_eq_true_eq, Bool.and_eq_true, Bool.not_eq_true', decide_eq_false_iff_not]
      at hused
    rcases hused with hnew | ⟨hused, hold⟩
    · exact .inr ⟨i, by rwa [update_self]⟩
    · refine (h.covered b hc hused).imp_right fun ⟨j, hj⟩ => ⟨j, ?_⟩
      have hne : j ≠ i := fun heq => hold (heq ▸ hj)
      rwa [update_of_ne hne]
  held b hb hc := by
    rw [ht.layout] at hc
    obtain ⟨hused, hnone⟩ := h.held b hb hc
    refine ⟨by simp [ht.used hc, hused, hnone i], fun j => ?_⟩
    rcases eq_or_ne j i with rfl | hj
    · rw [update_self]
      intro hnew
      rcases (ht.origin b hnew).2 with hold | hclear
      · exact hnone j hold
      · rw [hused] at hclear
        cases hclear
    · rw [update_of_ne hj]
      exact hnone j

end Shares

section Conserve

variable {ι : Type} {reserved : Set Nat} {v : Files ι} {fs fs' : Fs} {tree : ExtentTree} {s s' : TreeFs}
  {extents : List Extent} {external new : List Nat} {g : JournalGeometry} {csumSeed : ι → Option UInt32}
  {policy : ι → DataForgetPolicy}

inductive Handled [DecidableEq ι] (reserved : Set Nat) (g : JournalGeometry) (csumSeed : ι → Option UInt32) (policy : ι → DataForgetPolicy) :
    Files ι → Prop where
  | empty {v : Files ι} (hsteady : v.fs.Steady) (htree : ∀ i, v.tree i = .empty)
    (hused : ∀ b, v.fs.layout.Contains b → (v.fs.blockUsed b = true ↔ b ∈ reserved)) :
    Handled reserved g csumSeed policy v
  | edit {v : Files ι} {i : ι} {edit : FileEdit} {s' : TreeFs} (hv : Handled reserved g csumSeed policy v)
    (hrun : edit.run g (csumSeed i) (policy i) ⟨v.tree i, v.fs⟩ = (.ok (), s')) :
    Handled reserved g csumSeed policy ⟨s'.fs, Function.update v.tree i s'.tree⟩
  | settle {v : Files ι} {fs' : Fs} (hv : Handled reserved g csumSeed policy v) (hsettles : v.fs.Settles fs') :
    Handled reserved g csumSeed policy ⟨fs', v.tree⟩

def Exchanges (s s' : TreeFs) (extents : List Extent) (external : List Nat) : Prop :=
  ∃ extents' external', Stands s' extents' external' ∧
    s.fs.Trades s'.fs (dataBlocks extents ++ external) (dataBlocks extents' ++ external')

theorem Reaches.exchanges {bindings : List Binding} (h : Reaches s s' (dataBlocks extents ++ external) bindings) :
    Exchanges s s' extents external := by
  obtain ⟨extents', external', hst, -, htrades⟩ := h
  exact ⟨extents', external', hst, htrades⟩

theorem FileEdit.run_ends (h : Stands s extents external) (edit : FileEdit) (g : JournalGeometry)
    (csumSeed : Option UInt32) (policy : DataForgetPolicy) :
    (edit.run g csumSeed policy).Ends s (fun _ s' => Exchanges s s' extents external) fun _ _ => True := by
  cases edit with
  | fillHoles startIblock endIblock bound =>
    refine (fillHoles_ends h (Nat.le_pred_of_lt endIblock.isLt) bound startIblock).bind
      fun _ s' hr => .ret ?_
    obtain ⟨_, ⟨extents', external', _, hp⟩, -⟩ := hr
    exact ⟨extents', external', hp.stands, hp.trades⟩
  | markRangeWritten startIblock endIblock =>
    rw [FileEdit.run, Ext4.markRangeWritten]
    split
    · exact .ret ⟨extents, external, h, .refl h.steady.ready h.owns⟩
    next hlt =>
      exact (convertUnwritten_ends h (by omega) False.elim).mono (fun _ _ hr => hr.exchanges)
        fun _ _ _ => trivial
  | truncateChunk newSize maxCredits =>
    exact ((truncateChunk_ends h False.elim newSize maxCredits).mono
      (fun _ _ hr => hr.1.exchanges) fun _ _ _ => trivial).bind fun _ _ hr => .ret hr
  | punchChunk startBlock endBlock maxCredits =>
    refine ((punchChunk_ends h False.elim maxCredits).mono (fun _ _ hr => ?_)
      fun _ _ _ => trivial).bind fun _ _ hr => .ret hr
    obtain ⟨_, -, -, -, hr⟩ := hr
    exact hr.exchanges

theorem Stands.aside (h : Stands ⟨tree, fs⟩ extents external) (hsteady : fs'.Steady)
    (howns : fs'.Owns (dataBlocks extents ++ external)) (himage : ∀ b ∈ external, fs'.image b = fs.image b) :
    Stands ⟨tree, fs'⟩ extents external :=
  ⟨hsteady, h.shaped.congr himage, h.sound, h.ordered, howns, h.sectors⟩

structure Conserved (reserved : Set Nat) (v : Files ι) (extents : ι → List Extent) (external : ι → List Nat) : Prop where
  stands : ∀ i, Stands ⟨v.tree i, v.fs⟩ (extents i) (external i)
  shares : Shares reserved v.fs fun i => dataBlocks (extents i) ++ external i

theorem Conserved.exchange [DecidableEq ι] {extents : ι → List Extent} {external : ι → List Nat} {i : ι}
    (h : Conserved reserved v extents external) (hex : Exchanges ⟨v.tree i, v.fs⟩ s' (extents i) (external i)) :
    ∃ extents' external', Conserved reserved ⟨s'.fs, update v.tree i s'.tree⟩ extents' external' := by
  obtain ⟨extents', external', hst, htrades⟩ := hex
  refine ⟨update extents i extents', update external i external', fun j => ?_, ?_⟩
  · rcases eq_or_ne j i with rfl | hj
    · simpa only [update_self] using hst
    · simp only [update_of_ne hj]
      refine (h.stands j).aside hst.steady (h.shares.keeps htrades hj) fun b hb => ?_
      have hmem := List.mem_append_right (dataBlocks (extents j)) hb
      exact htrades.image ((h.shares.owns j).system b hmem) ((h.shares.owns j).used b hmem)
        (h.shares.apart j i hj b hmem)
  · have hshares := h.shares.trade (h.stands i).steady htrades hst.owns.nodup
    convert hshares using 1
    funext j
    rcases eq_or_ne j i with rfl | hj
    · simp only [update_self]
    · simp only [update_of_ne hj]

theorem Conserved.settle {extents : ι → List Extent} {external : ι → List Nat}
    (h : Conserved reserved v extents external) (hs : v.fs.Settles fs') : Conserved reserved ⟨fs', v.tree⟩ extents external := by
  have howns : ∀ i, fs'.Owns (dataBlocks (extents i) ++ external i) := fun i => by
    obtain ⟨hnodup, hcontains, hused, hsystem⟩ := h.shares.owns i
    rw [← hs.layout] at hcontains hsystem
    exact ⟨hnodup, hcontains, fun b hb => (hs.used b).trans (hused b hb), hsystem⟩
  refine ⟨fun i => (h.stands i).aside hs.steady (howns i) fun b _ => hs.image b, howns, h.shares.apart, ?_, ?_⟩
  · intro b hc hused
    rw [hs.layout] at hc
    rw [hs.used] at hused
    exact h.shares.covered b hc hused
  · intro b hb hc
    rw [hs.layout] at hc
    rw [hs.used]
    exact h.shares.held b hb hc

theorem Handled.conserved [DecidableEq ι] (h : Handled reserved g csumSeed policy v) : ∃ extents external, Conserved reserved v extents external := by
  induction h with
  | @empty v hsteady htree hused =>
    have hstands := fun i => Stands.empty (s := ⟨v.tree i, v.fs⟩) hsteady (htree i)
    refine ⟨fun _ => [], fun _ => [], hstands, fun i => (hstands i).owns, ?_, ?_, ?_⟩
    · exact fun _ _ _ b hb => absurd hb List.not_mem_nil
    · exact fun b hc hb => .inl ((hused b hc).mp hb)
    · exact fun b hb hc => ⟨(hused b hc).mpr hb, fun _ => List.not_mem_nil⟩
  | edit _ hrun ih =>
    obtain ⟨extents, external, hcons⟩ := ih
    exact hcons.exchange ((FileEdit.run_ends (hcons.stands _) _ g _ _).of_ok hrun)
  | settle _ hsettles ih =>
    obtain ⟨extents, external, hcons⟩ := ih
    exact ⟨extents, external, hcons.settle hsettles⟩

-- each referenced block has one reference and its bit, no other block has a bit, and the counters agree
theorem blocks_conserved [DecidableEq ι] (h : Handled reserved g csumSeed policy v) :
    ∃ (extents : ι → List Extent) (external : ι → List Nat), (∀ i,
      ((v.tree i).flatten v.fs).1 = .ok (extents i, external i) ∧
      (dataBlocks (extents i) ++ external i).Nodup ∧
      (v.tree i).sectorCount = 8 * ((dataBlocks (extents i)).length + (external i).length) ∧
      (external i).length = externalNodeCount (extents i).length) ∧
    (∀ i j, i ≠ j → ∀ b ∈ dataBlocks (extents i) ++ external i, b ∉ dataBlocks (extents j) ++ external j) ∧
    (∀ i, ∀ b ∈ dataBlocks (extents i) ++ external i,
      v.fs.layout.Contains b ∧ b ∉ reserved ∧ v.fs.blockUsed b = true) ∧
    ∀ b, v.fs.layout.Contains b → b ∉ reserved → (∀ i, b ∉ dataBlocks (extents i) ++ external i) →
      v.fs.blockUsed b = false := by
  obtain ⟨extents, external, hcons⟩ := h.conserved
  refine ⟨extents, external, fun i => ?_, hcons.shares.apart, fun i b hb => ?_, fun b hc hres hnone => ?_⟩
  · have hst := hcons.stands i
    exact ⟨hst.read, hst.owns.nodup, hst.sectors, hst.shaped.count⟩
  · have howns := hcons.shares.owns i
    have hc := howns.contains b hb
    exact ⟨hc, fun hres => (hcons.shares.held b hres hc).2 i hb, howns.used b hb⟩
  · rw [Bool.eq_false_iff]
    intro hused
    rcases hcons.shares.covered b hc hused with hin | ⟨i, hi⟩
    · exact hres hin
    · exact hnone i hi

end Conserve

section Twins

def freshVolume : Specimen := ⟨32, 5, 8, Specimen.taken_5, by decide, Specimen.bits_32⟩

def twins : Files Bool := ⟨freshVolume.bearing tight fun _ => none, fun _ => .empty⟩

def firstClaim : Except Fault IdRange × TreeFs :=
  TreeFs.onFs (Fs.allocBlocks tight 1 (allocGoal [] 0)) ⟨.empty, twins.fs⟩

def secondClaim : Except Fault IdRange × TreeFs :=
  TreeFs.onFs (Fs.allocBlocks tight 1 (allocGoal [] 0)) ⟨.empty, firstClaim.2.fs⟩

theorem twins_handled : Handled {b | b < 5} tight (fun _ => none) (fun _ => .plainData) twins := by
  have hst : Stands (freshVolume.holder tight (fun _ => none) (inlineLeafRoot []) [] []) [] [] :=
    Specimen.stands_inline (by decide) (by decide) (by decide) (by decide) (by decide)
  refine .empty hst.steady (fun _ => rfl) fun b hc => ?_
  have hused : twins.fs.blockUsed b = decide (b < 5) := freshVolume.blockUsed_eq tight hc.2
  rw [hused, decide_eq_true_eq]
  rfl

theorem fill_blank {fs : Fs} {b : Nat} {claimed : Except Fault IdRange × TreeFs} (hst : Stands ⟨.empty, fs⟩ [] [])
    (halloc : TreeFs.onFs (Fs.allocBlocks tight 1 (allocGoal [] 0)) ⟨.empty, fs⟩ = (.ok ⟨b, b + 1⟩, claimed.2))
    (hroot : claimed.2.tree = .empty) :
    (FileEdit.fillHoles 0 1 .wholeRange).run tight none .plainData ⟨.empty, fs⟩ =
      (.ok (), ⟨⟨inlineLeafRoot [⟨0, 1, b, .unwritten⟩], 8, true⟩, claimed.2.fs⟩) := by
  have hins := insert_blank (s := claimed.2) (congrArg ExtentTree.root hroot) ⟨0, 1, b, .unwritten⟩ tight none
  rw [hroot] at hins
  have hlen : (⟨b, b + 1⟩ : IdRange).len = 1 := Nat.add_sub_cancel_left b 1
  exact Op.bind_ok (fillHoles_one hst (by decide : 0 < 1) rfl halloc hlen hins)

def twinTree (b : Nat) : ExtentTree := ⟨inlineLeafRoot [⟨0, 1, b, .unwritten⟩], 8, true⟩

def filledTwins : Files Bool :=
  ⟨secondClaim.2.fs, Function.update (Function.update twins.tree false (twinTree 5)) true (twinTree 6)⟩

theorem filledTwins_handled :
    Handled {b | b < 5} tight (fun _ => none) (fun _ => .plainData) filledTwins := by
  have halloc1 : firstClaim = (.ok ⟨5, 5 + 1⟩, firstClaim.2) :=
    eq_ok_of_toOption (r := firstClaim) (by decide +kernel)
  have halloc2 : secondClaim = (.ok ⟨6, 6 + 1⟩, secondClaim.2) :=
    eq_ok_of_toOption (r := secondClaim) (by decide +kernel)
  obtain ⟨extents, external, hcons⟩ := twins_handled.conserved
  have hfirst := twins_handled.edit (i := false) (fill_blank (Stands.empty (hcons.stands false).steady rfl) halloc1 rfl)
  obtain ⟨extents, external, hcons⟩ := hfirst.conserved
  exact hfirst.edit (i := true) (fill_blank (Stands.empty (hcons.stands true).steady rfl) halloc2 rfl)

theorem blocks_conserved_twins :
    filledTwins.fs.blockUsed 6 = true ∧ filledTwins.fs.blockUsed 7 = false ∧
    ∃ (extents : Bool → List Extent) (external : Bool → List Nat), (∀ i,
      ((filledTwins.tree i).flatten filledTwins.fs).1 = .ok (extents i, external i) ∧
      (dataBlocks (extents i) ++ external i).Nodup ∧
      (filledTwins.tree i).sectorCount = 8 * ((dataBlocks (extents i)).length + (external i).length) ∧
      (external i).length = externalNodeCount (extents i).length) ∧
    (∀ i j, i ≠ j → ∀ b ∈ dataBlocks (extents i) ++ external i, b ∉ dataBlocks (extents j) ++ external j) ∧
    (∀ i, ∀ b ∈ dataBlocks (extents i) ++ external i,
      filledTwins.fs.layout.Contains b ∧ b ∉ {b | b < 5} ∧ filledTwins.fs.blockUsed b = true) ∧
    ∀ b, filledTwins.fs.layout.Contains b → b ∉ {b | b < 5} →
      (∀ i, b ∉ dataBlocks (extents i) ++ external i) → filledTwins.fs.blockUsed b = false :=
  ⟨by decide +kernel, by decide +kernel, blocks_conserved filledTwins_handled⟩

end Twins

end Ext4
