import Ext4.Dir.Linear

namespace Ext4

open Bytes List

variable {back front recs : List Rec} {r : Rec} {β : Type} {blocks : List (List Rec)} {i ino : Nat} {csum : Bool}

def placed : Nat → List Rec → List (Nat × Rec)
  | _, [] => []
  | off, r :: rest => (off, r) :: placed (off + r.recLen) rest

theorem mem_placed {off o : Nat} :
    (o, r) ∈ placed off recs ↔ ∃ front back, recs = front ++ r :: back ∧ o = off + recSpan front := by
  induction recs generalizing off with
  | nil => simp [placed]
  | cons x rest ih =>
    rw [placed, mem_cons, ih]
    constructor
    · rintro (heq | ⟨front, back, rfl, rfl⟩)
      · cases heq
        exact ⟨[], rest, rfl, rfl⟩
      · exact ⟨x :: front, back, rfl, by rw [recSpan_cons, add_assoc]⟩
    · rintro ⟨front, back, heq, rfl⟩
      cases front with
      | nil =>
        cases heq
        exact .inl rfl
      | cons y front =>
        cases heq
        exact .inr ⟨front, back, rfl, by rw [recSpan_cons, add_assoc]⟩

namespace DirBlockView

variable {v : DirBlockView} {off : Nat} {r : Rec} {recs : List Rec}

theorem readHeader_eq (h : Seg v.block off v.limit (r :: recs)) : v.readHeader off = .ok r.header := by
  obtain ⟨hat, hwf, hle, -⟩ := h
  have hroom := hwf.room
  have hread : DirEntryHeader.read v.block off = r.header := by rw [← hat]; rfl
  unfold readHeader
  rw [if_neg (by omega)]
  simp only [hread, Rec.header]
  rw [if_neg (not_not.mpr hwf.aligned), if_neg (not_lt.mpr hwf.nameLen_le), if_neg (fun hz => hwf.named
    hz.1 hz.2), if_neg (not_lt.mpr hwf.fits), if_neg (not_lt.mpr hle)]

theorem scan_eq (visit : Nat → DirEntryHeader → Option β) {fuel : Nat}
    (h : Seg v.block off v.limit recs) (hfuel : (v.limit - off) / 8 + 1 ≤ fuel) :
    v.scan visit fuel off = .ok ((placed off recs).findSome? fun p => visit p.1 p.2.header) := by
  induction recs generalizing off fuel with
  | nil =>
    obtain ⟨fuel, rfl⟩ : ∃ k, fuel = k + 1 := ⟨fuel - 1, by omega⟩
    rw [scan, if_pos (le_of_eq h.symm)]
    rfl
  | cons r rest ih =>
    have hroom := h.2.1.room
    have hle := h.2.2.1
    obtain ⟨fuel, rfl⟩ : ∃ k, fuel = k + 1 := ⟨fuel - 1, by omega⟩
    rw [scan, if_neg (by omega), readHeader_eq h, placed, findSome?_cons]
    dsimp only
    cases hv : visit off r.header with
    | some found => rfl
    | none =>
      refine ih h.2.2.2 ?_
      dsimp only [Rec.header]
      omega

theorem iterEntries_eq (visit : Nat → DirEntryHeader → Option β) (h : Seg v.block 0 v.limit recs) :
    v.iterEntries visit = .ok ((placed 0 recs).findSome? fun p => visit p.1 p.2.header) :=
  scan_eq visit h (by rw [Nat.sub_zero])

end DirBlockView

theorem withTail_split
    (h : withTail csum recs = front ++ r :: back) : (∃ rest, recs = front ++ r :: rest) ∨ r = Rec.tail := by
  cases csum with
  | false => exact .inl ⟨back, by simpa [withTail] using h⟩
  | true =>
    rcases eq_nil_or_concat back with rfl | ⟨rest, x, rfl⟩
    · have hlast : recs ++ [Rec.tail] = front ++ [r] := h
      exact .inr (append_inj_right' hlast rfl |> List.cons.inj |>.1).symm
    · have hlast : recs ++ [Rec.tail] = (front ++ r :: rest) ++ [x] := by
        rw [withTail, concat_eq_append] at h
        simpa using h
      exact .inl ⟨rest, append_inj_left' hlast rfl⟩

def allLives (blocks : List (List Rec)) : List (Name × Nat) := lives blocks.flatten

theorem mem_allLives {x : Name × Nat} :
    x ∈ allLives blocks ↔ ∃ recs ∈ blocks, ∃ r ∈ recs, r.live = some x := by
  simp only [allLives, lives, mem_filterMap, mem_flatten]
  constructor
  · rintro ⟨r, ⟨recs, hrecs, hr⟩, hx⟩
    exact ⟨recs, hrecs, r, hr, hx⟩
  · rintro ⟨recs, hrecs, r, hr, hx⟩
    exact ⟨r, ⟨recs, hrecs, hr⟩, hx⟩

theorem lives_middle (front back : List Rec) (h : r.ino ≠ 0) :
    (lives (front ++ r :: back)).Perm ((r.name, r.ino) :: lives (front ++ back)) := by
  rw [lives_append, lives_append, lives_cons, Rec.live_of_ne h]
  exact perm_middle

theorem allLives_set (h : blocks[i]? = some recs) :
    ∃ others, (allLives blocks).Perm (lives recs ++ others) ∧
      ∀ recs', (allLives (blocks.set i recs')).Perm (lives recs' ++ others) := by
  obtain ⟨hi, hget⟩ := List.getElem?_eq_some_iff.mp h
  have hsplit : ∀ recs', blocks.set i recs' = blocks.take i ++ recs' :: blocks.drop (i + 1) :=
    fun recs' => List.set_eq_take_append_cons_drop.trans (if_pos hi)
  have hself : blocks = blocks.take i ++ recs :: blocks.drop (i + 1) := by
    rw [← hsplit, ← hget, set_getElem_self]
  have hperm : ∀ recs', (allLives (blocks.take i ++ recs' :: blocks.drop (i + 1))).Perm
      (lives recs' ++ (allLives (blocks.take i) ++ allLives (blocks.drop (i + 1)))) := fun recs' => by
    simp only [allLives, flatten_append, flatten_cons, lives_append]
    exact perm_append_comm_assoc _ _ _
  refine ⟨allLives (blocks.take i) ++ allLives (blocks.drop (i + 1)), ?_, fun recs' => ?_⟩
  · rw [hself]
    simpa [← hself] using hperm recs
  · rw [hsplit]
    exact hperm recs'

namespace Directory

structure Holds (dir : Directory) (blocks : List (List Rec)) : Prop where
  size : dir.size = 4096 * blocks.length
  page : ∀ i recs, blocks[i]? = some recs → ∃ b, dir.pages i = some b ∧
    Formed dir.csumSeed.isSome b recs

namespace Holds

variable {dir : Directory} {blocks : List (List Rec)} {b : Block}

section

variable (h : dir.Holds blocks)

include h

theorem nrBlocks : dir.nrBlocks = blocks.length := by
  unfold Directory.nrBlocks
  rw [h.size]
  omega

theorem view (hi : blocks[i]? = some recs) :
    ∃ b, dir.pages i = some b ∧ Formed dir.csumSeed.isSome b recs ∧ dir.view i = .ok ⟨b, 4096⟩ := by
  obtain ⟨b, hb, hf⟩ := h.page i recs hi
  have hlt := (List.getElem?_eq_some_iff.mp hi).1
  have hlimit : min (dir.size - i * 4096) 4096 = 4096 := by
    rw [h.size]
    omega
  refine ⟨b, hb, hf, ?_⟩
  rw [Directory.view, hb, hlimit]

theorem search_cases (visit : Nat → Nat → DirEntryHeader → DirBlockView → Option β) {idxs : List Nat}
    (hidx : ∀ i ∈ idxs, i < blocks.length) :
    (∃ x i b recs front r back, dir.search visit idxs = .ok (some x) ∧ i ∈ idxs ∧ blocks[i]? = some recs ∧
      dir.pages i = some b ∧ withTail dir.csumSeed.isSome recs = front ++ r :: back ∧ visit i (recSpan front)
      r.header ⟨b, 4096⟩ = some x) ∨
    (dir.search visit idxs = .ok none ∧ ∀ i ∈ idxs, ∀ b recs front r back, blocks[i]? = some recs →
      dir.pages i = some b → withTail dir.csumSeed.isSome recs = front ++ r :: back →
      visit i (recSpan front) r.header ⟨b, 4096⟩ = none) := by
  induction idxs with
  | nil => exact .inr ⟨rfl, fun i hi => absurd hi not_mem_nil⟩
  | cons i rest ih =>
    have hlt := hidx i mem_cons_self
    have hget : blocks[i]? = some blocks[i] := List.getElem?_eq_getElem hlt
    obtain ⟨b, hb, hf, hview⟩ := h.view hget
    have hiter := DirBlockView.iterEntries_eq (v := ⟨b, 4096⟩)
      (fun off header => visit i off header ⟨b, 4096⟩) hf.chain
    rw [Directory.search, hview]
    dsimp only
    rw [hiter]
    cases hfound : (placed 0 (withTail dir.csumSeed.isSome blocks[i])).findSome? fun p =>
        visit i p.1 p.2.header ⟨b, 4096⟩ with
    | some x =>
      obtain ⟨⟨o, r⟩, hmem, hx⟩ := exists_of_findSome?_eq_some hfound
      obtain ⟨front, back, hsplit, rfl⟩ := mem_placed.mp hmem
      rw [zero_add] at hx
      exact .inl ⟨x, i, b, _, front, r, back, rfl, mem_cons_self, hget, hb, hsplit, hx⟩
    | none =>
      rcases ih fun j hj => hidx j (mem_cons_of_mem i hj) with hin | ⟨hnone, hall⟩
      · obtain ⟨x, j, b', recs, front, r, back, hs, hj, hr⟩ := hin
        exact .inl ⟨x, j, b', recs, front, r, back, hs, mem_cons_of_mem i hj, hr⟩
      · refine .inr ⟨hnone, fun j hj b' recs front r back hrecs hb' hsplit => ?_⟩
        rcases mem_cons.mp hj with rfl | hj
        · have hmem : (recSpan front, r) ∈ placed 0 (withTail dir.csumSeed.isSome blocks[j]) := by
            refine mem_placed.mpr ⟨front, back, ?_, (zero_add _).symm⟩
            rw [hget] at hrecs
            cases hrecs
            exact hsplit
          rw [hb] at hb'
          cases hb'
          exact findSome?_eq_none_iff.mp hfound _ hmem
        · exact hall j hj b' recs front r back hrecs hb' hsplit

theorem setPage (hf : Formed dir.csumSeed.isSome b recs) : (dir.setPage i b).Holds (blocks.set i recs) := by
  refine ⟨by rw [List.length_set]; exact h.size, fun j recs' hj => ?_⟩
  rw [List.getElem?_set] at hj
  by_cases hij : i = j
  · subst hij
    rw [if_pos rfl] at hj
    split at hj
    · cases hj
      exact ⟨b, by simp [Directory.setPage], hf⟩
    · cases hj
  · rw [if_neg hij] at hj
    obtain ⟨b', hb', hf'⟩ := h.page j recs' hj
    exact ⟨b', by simp [Directory.setPage, Function.update_of_ne (Ne.symm hij), hb'], hf'⟩

theorem range_lt : ∀ i ∈ List.range dir.nrBlocks, i < blocks.length := fun i hi => by
  rw [h.nrBlocks] at hi
  exact mem_range.mp hi

end

theorem entryName_eq (hf : Formed csum b recs) (hsplit : withTail csum recs = front ++ r :: back)
    (hlive : r.ino ≠ 0) :
    DirBlockView.entryName ⟨b, 4096⟩ (recSpan front) r.header = r.name := by
  have hchain := hf.chain
  rw [hsplit, Seg.append_iff, zero_add] at hchain
  have hat := hchain.2.1
  have hname : (Rec.at_ b (recSpan front)).name = r.name := by rw [hat]
  rw [← hname, DirBlockView.entryName, if_pos (c := r.header.ino ≠ 0) hlive, ← hat]
  rfl

theorem scanForName_cases (h : dir.Holds blocks) (name : Name) :
    (∃ i front r back, blocks[i]? = some (front ++ r :: back) ∧ r.ino ≠ 0 ∧ r.name = name ∧
      dir.scanForName name = .ok ⟨r.ino, i * 4096 + recSpan front, r.recLen⟩) ∨
    (dir.scanForName name = .error (.error .enoent "") ∧ name ∉ (allLives blocks).map Prod.fst) := by
  rcases h.search_cases (nameAt name) h.range_lt with hfound | ⟨hnone, hall⟩
  · obtain ⟨x, i, b, recs, front, r, back, hs, -, hrecs, hb, hsplit, hx⟩ := hfound
    unfold nameAt at hx
    split at hx
    · cases hx
    next hlive =>
    rw [not_or, not_not] at hlive
    obtain ⟨b', hb', hf⟩ := h.page i recs hrecs
    rw [hb] at hb'
    cases hb'
    cases hx
    rcases withTail_split hsplit with ⟨rest, rfl⟩ | rfl
    · refine .inl ⟨i, front, r, rest, hrecs, hlive.1, ?_, ?_⟩
      · rw [← hlive.2]
        exact (entryName_eq hf hsplit hlive.1).symm
      · rw [scanForName, hs]
        rfl
    · exact absurd rfl hlive.1
  · refine .inr ⟨by rw [scanForName, hnone], fun hmem => ?_⟩
    obtain ⟨⟨n, ino⟩, hlive, hn⟩ := mem_map.mp hmem
    obtain ⟨recs, hrecs, r, hr, hx⟩ := mem_allLives.mp hlive
    obtain ⟨i, hi, rfl⟩ := getElem_of_mem hrecs
    obtain ⟨front, back, hsplit⟩ := append_of_mem hr
    have hget : blocks[i]? = some blocks[i] := List.getElem?_eq_getElem hi
    obtain ⟨b, hb, hf⟩ := h.page i _ hget
    have hmemi : i ∈ List.range dir.nrBlocks := by
      rw [h.nrBlocks]
      exact mem_range.mpr hi
    have hino : r.ino ≠ 0 := fun hz => by
      rw [Rec.live_of_eq hz] at hx
      cases hx
    rw [Rec.live_of_ne hino] at hx
    cases hx
    have htail : withTail dir.csumSeed.isSome blocks[i] = front ++ r :: (back ++
        if dir.csumSeed.isSome then [Rec.tail] else []) := by
      rw [withTail, hsplit]
      simp
    have hmiss := hall i hmemi b _ _ _ _ hget hb htail
    rw [nameAt, entryName_eq hf htail hino, if_neg] at hmiss
    · cases hmiss
    · rintro (hz | hz)
      · exact hino hz
      · exact hz hn

theorem findDirSlot_cases (h : dir.Holds blocks) (nameLen : Nat) :
    (∃ i front r back slot v, blocks[i]? = some (front ++ r :: back) ∧ slotAt nameLen i (recSpan front)
      r.header v = some slot ∧ dir.findDirSlot nameLen = .ok (some slot)) ∨
    dir.findDirSlot nameLen = .ok none := by
  rcases h.search_cases (slotAt nameLen) h.range_lt with hfound | ⟨hnone, -⟩
  · obtain ⟨x, i, b, recs, front, r, back, hs, -, hrecs, hb, hsplit, hx⟩ := hfound
    rcases withTail_split hsplit with ⟨rest, rfl⟩ | rfl
    · exact .inl ⟨i, front, r, rest, x, _, hrecs, hx, hs⟩
    · exact absurd rfl (slotAt_cases hx).1
  · exact .inr hnone

theorem sealDirBlock (h : dir.Holds blocks) (hi : i < blocks.length) :
    ∃ dir', dir.sealDirBlock i = .ok dir' ∧ dir'.Holds blocks ∧ dir'.csumSeed = dir.csumSeed ∧
      dir'.size = dir.size := by
  unfold Directory.sealDirBlock
  split
  · exact ⟨dir, rfl, h, rfl, rfl⟩
  next seed hseed =>
    have hget : blocks[i]? = some blocks[i] := List.getElem?_eq_getElem hi
    obtain ⟨b, hb, hf⟩ := h.page i _ hget
    rw [hb]
    refine ⟨_, rfl, ?_, rfl, rfl⟩
    have hsealed : Formed dir.csumSeed.isSome (DirBlock.sealed seed b) blocks[i] := by
      rw [hseed] at hf ⊢
      exact hf.sealTail seed
    have hset := h.setPage (i := i) hsealed
    rwa [set_getElem_self] at hset

end Holds

def Linear (dir : Directory) (M : Name → Option Nat) : Prop :=
  ∃ blocks, dir.Holds blocks ∧ (allLives blocks).Maps M

inductive Edit where
  | add (name : Name) (ino : Nat) (type : DirEntryFileType)
  | delete (name : Name)
  | retarget (name : Name) (ino : Nat) (type : DirEntryFileType)
  | grow

def sealing (off : Nat) : Except Fault Directory → Except Fault Directory
  | .error e => .error e
  | .ok dir => dir.sealDirBlock (off / 4096)

def step (dir : Directory) : Edit → Except Fault Directory
  | .add name ino type =>
    match dir.findDirSlot name.length with
    | .error e => .error e
    | .ok (some slot) => sealing slot.dirOffset (dir.addEntry slot name ino type)
    | .ok none =>
      sealing dir.grownSlot.dirOffset (dir.growPage.publish.addEntry dir.grownSlot name ino type)
  | .delete name =>
    match dir.scanForName name with
    | .error e => .error e
    | .ok info => sealing info.dirOffset (dir.deleteEntry info)
  | .retarget name ino type =>
    match dir.scanForName name with
    | .error e => .error e
    | .ok info => sealing info.dirOffset (dir.setEntryTarget info ino type)
  | .grow => .ok dir.growPage.publish

def run (dir : Directory) : List Edit → Except Fault Directory
  | [] => .ok dir
  | op :: ops =>
    match dir.step op with
    | .error e => .error e
    | .ok dir => dir.run ops

namespace Edit

def meaning (M : Name → Option Nat) : Edit → Name → Option Nat
  | .add name ino _ => Function.update M name (some ino)
  | .delete name => Function.update M name none
  | .retarget name ino _ => Function.update M name (some ino)
  | .grow => M

def Admits (M : Name → Option Nat) : Edit → Prop
  | .add name ino _ => name ≠ [] ∧ name.length ≤ nameMax ∧ M name = none ∧ ino ≠ 0 ∧ ino < 2 ^ 32
  | .delete _ => True
  | .retarget _ ino _ => ino ≠ 0 ∧ ino < 2 ^ 32
  | .grow => True

def meanings (M : Name → Option Nat) (edits : List Edit) : Name → Option Nat :=
  edits.foldl meaning M

def Misses (M : Name → Option Nat) : Edit → Prop
  | .delete name | .retarget name _ _ => M name = none
  | .add _ _ _ | .grow => False

def Admit : List Edit → (Name → Option Nat) → Prop
  | [], _ => True
  | op :: ops, M => op.Admits M ∧ Admit ops (op.meaning M)

end Edit

namespace Linear

variable {dir dir' : Directory} {M : Name → Option Nat} {name : Name}

theorem of_sealing {off : Nat} (h : dir.Holds blocks) (hm : (allLives blocks).Maps M)
    (hi : i < blocks.length) (hoff : off / 4096 = i) :
    ∃ dir', sealing off (.ok dir) = .ok dir' ∧ dir'.Linear M := by
  obtain ⟨dir', hs, hh, -⟩ := h.sealDirBlock hi
  rw [sealing, hoff]
  exact ⟨dir', hs, blocks, hh, hm⟩

theorem grow (h : dir.Holds blocks) :
    dir.growPage.publish.Holds (blocks ++ [[emptyRec dir.csumSeed.isSome]]) := by
  have hdiv : dir.size / 4096 = blocks.length := by
    rw [h.size]
    omega
  have hpay : dir.payloadLen = payload dir.csumSeed.isSome := rfl
  constructor
  · rw [length_append, List.length_singleton, Nat.mul_add, ← h.size]
    rfl
  · intro i recs hi
    rcases Nat.lt_or_ge i blocks.length with hlt | hge
    · rw [List.getElem?_append_left hlt] at hi
      obtain ⟨b, hb, hf⟩ := h.page i recs hi
      refine ⟨b, ?_, hf⟩
      simp only [publish, growPage, setPage, hdiv]
      rw [Function.update_of_ne (Nat.ne_of_lt hlt), hb]
    · rw [List.getElem?_append_right hge] at hi
      have hlen := (List.getElem?_eq_some_iff.mp hi).1
      rw [List.length_singleton] at hlen
      obtain rfl : i = blocks.length := by omega
      rw [Nat.sub_self] at hi
      cases hi
      refine ⟨_, ?_, fresh_formed dir.csumSeed.isSome⟩
      simp only [publish, growPage, setPage, hdiv, Function.update_self, hpay]

theorem allLives_grown (blocks : List (List Rec)) (csum : Bool) :
    allLives (blocks ++ [[emptyRec csum]]) = allLives blocks := by
  simp only [allLives, flatten_append, flatten_cons, flatten_nil, append_nil, lives_append, lives_cons]
  rw [Rec.live_of_eq rfl]
  simp [lives]

theorem add {slot : DirSlotInfo} {v : DirBlockView} (type : DirEntryFileType) (h : dir.Holds blocks)
    (hm : (allLives blocks).Maps M) (hrecs : blocks[i]? = some (front ++ r :: back))
    (hslot : slotAt name.length i (recSpan front) r.header v = some slot) (ha : (Edit.add name ino type).Admits M) :
    ∃ dir', sealing slot.dirOffset (dir.addEntry slot name ino type) = .ok dir' ∧
      dir'.Linear (Function.update M name (some ino)) := by
  obtain ⟨hpos, hlen, hfree, hne, hino⟩ := ha
  obtain ⟨b, hb, hf⟩ := h.page i _ hrecs
  obtain ⟨hidx, recs, hplaced, hlives⟩ := hf.place type hne hino hpos hlen hslot
  obtain ⟨others, hbefore, hafter⟩ := allLives_set hrecs
  have hi := (List.getElem?_eq_some_iff.mp hrecs).1
  have hadd : dir.addEntry slot name ino type =
      .ok (dir.setPage i (placeEntry slot name ino type b)) := by
    rw [addEntry, if_neg (not_lt.mpr hlen), hidx, editPage, hb]
  have hperm : ((name, ino) :: allLives blocks).Perm (allLives (blocks.set i recs)) :=
    ((hbefore.cons _).trans (hlives.symm.append_right others)).trans (hafter recs).symm
  rw [hadd]
  refine of_sealing (h.setPage hplaced) ((hm.insert hfree ino).perm hperm) ?_ hidx
  rwa [List.length_set]

theorem delete (h : dir.Holds blocks) (hm : (allLives blocks).Maps M)
    (hrecs : blocks[i]? = some (front ++ r :: back)) (hlive : r.ino ≠ 0) :
    ∃ dir', sealing (i * 4096 + recSpan front)
        (dir.deleteEntry ⟨r.ino, i * 4096 + recSpan front, r.recLen⟩) = .ok dir' ∧
      dir'.Linear (Function.update M r.name none) := by
  obtain ⟨b, hb, hf, hview⟩ := h.view hrecs
  obtain ⟨-, hwf, hle⟩ := hf.at_
  have hroom := hwf.room
  have hpay := payload_le dir.csumSeed.isSome
  obtain ⟨b', recs, hdel, hdeleted, hlives⟩ := hf.delete
  obtain ⟨others, hbefore, hafter⟩ := allLives_set hrecs
  have hi := (List.getElem?_eq_some_iff.mp hrecs).1
  have hidx : (i * 4096 + recSpan front) / 4096 = i := by omega
  have hoff : i * 4096 + recSpan front - i * 4096 = recSpan front := by omega
  have hdelete : dir.deleteEntry ⟨r.ino, i * 4096 + recSpan front, r.recLen⟩ =
      .ok (dir.setPage i b') := by
    simp only [deleteEntry, hidx, hview, hoff, hdel]
  have hperm : (allLives blocks).Perm ((r.name, r.ino) :: allLives (blocks.set i recs)) := by
    refine (hbefore.trans ((lives_middle front back hlive).append_right others)).trans (List.Perm.cons _ ?_)
    rw [← hlives]
    exact (hafter recs).symm
  rw [hdelete]
  refine of_sealing (h.setPage hdeleted) (hm.perm hperm).erase ?_ hidx
  rwa [List.length_set]

theorem retarget (type : DirEntryFileType) (h : dir.Holds blocks) (hm : (allLives blocks).Maps M)
    (hrecs : blocks[i]? = some (front ++ r :: back)) (hlive : r.ino ≠ 0) (hne : ino ≠ 0) (hino : ino < 2 ^ 32) :
    ∃ dir', sealing (i * 4096 + recSpan front)
        (dir.setEntryTarget ⟨r.ino, i * 4096 + recSpan front, r.recLen⟩ ino type) = .ok dir' ∧
      dir'.Linear (Function.update M r.name (some ino)) := by
  obtain ⟨b, hb, hf⟩ := h.page i _ hrecs
  obtain ⟨-, hwf, hle⟩ := hf.at_
  have hroom := hwf.room
  have hpay := payload_le dir.csumSeed.isSome
  have hformed := hf.retarget type hino fun _ => hwf.named hlive
  obtain ⟨others, hbefore, hafter⟩ := allLives_set hrecs
  have hi := (List.getElem?_eq_some_iff.mp hrecs).1
  have hidx : (i * 4096 + recSpan front) / 4096 = i := by omega
  have hoff : i * 4096 + recSpan front - i * 4096 = recSpan front := by omega
  have hset : dir.setEntryTarget ⟨r.ino, i * 4096 + recSpan front, r.recLen⟩ ino type =
      .ok (dir.setPage i (DirBlock.setFileType (recSpan front) type
        (DirBlock.setInode (recSpan front) ino b))) := by
    simp only [setEntryTarget, hidx, hoff, editPage, hb]
  have hbefore' := hbefore.trans ((lives_middle front back hlive).append_right others)
  let r' : Rec := { r with ino := ino, fileType := type.code }
  have hafter' := (hafter _).trans ((lives_middle front back (r := r') hne).append_right others)
  rw [hset]
  refine of_sealing (h.setPage hformed) (((hm.perm hbefore').replace ino).perm hafter'.symm) ?_ hidx
  rwa [List.length_set]

theorem lookup (h : dir.Linear M) (name : Name) :
    (∃ info, dir.scanForName name = .ok info ∧ M name = some info.ino) ∨
    (dir.scanForName name = .error (.error .enoent "") ∧ M name = none) := by
  obtain ⟨blocks, hh, hm⟩ := h
  rcases hh.scanForName_cases name with ⟨i, front, r, back, hrecs, hlive, rfl, hs⟩ | ⟨hs, hnone⟩
  · refine .inl ⟨_, hs, (hm.iff _ _).mpr (mem_allLives.mpr ?_)⟩
    exact ⟨_, mem_of_getElem? hrecs, r, by simp, Rec.live_of_ne hlive⟩
  · exact .inr ⟨hs, hm.eq_none.mpr hnone⟩

theorem step_add (h : dir.Linear M) {type : DirEntryFileType} (ha : (Edit.add name ino type).Admits M) :
    ∃ dir', dir.step (.add name ino type) = .ok dir' ∧
      dir'.Linear (Function.update M name (some ino)) := by
  obtain ⟨blocks, hh, hm⟩ := h
  rcases hh.findDirSlot_cases name.length with ⟨i, front, r, back, slot, v, hrecs, hslot, hs⟩ | hs
  · simp only [step, hs]
    exact add type hh hm hrecs hslot ha
  · simp only [step, hs]
    have hgrown := grow hh
    have hlast : (blocks ++ [[emptyRec dir.csumSeed.isSome]])[blocks.length]? =
        some ([] ++ emptyRec dir.csumSeed.isSome :: []) := List.getElem?_concat_length
    have hfits := minRecLen_le ha.2.1
    have hpay : ∀ csum, 264 ≤ payload csum := by decide
    have hslot : slotAt name.length blocks.length (recSpan []) (emptyRec dir.csumSeed.isSome).header
        ⟨zeros 4096, 4096⟩ = some dir.grownSlot := by
      have htype : (emptyRec dir.csumSeed.isSome).header.fileType ≠ ftDirCsum := code_ne_csum .unknown
      rw [slotAt, if_neg htype, grownSlot, hh.size, mul_comm]
      exact if_pos (.inl ⟨rfl, le_trans hfits (hpay _)⟩)
    exact add type hgrown (by rwa [allLives_grown]) hlast hslot ha

theorem step (h : dir.Linear M) {e : Edit} (ha : e.Admits M) :
    (∃ dir', dir.step e = .ok dir' ∧ dir'.Linear (e.meaning M)) ∨
    (dir.step e = .error (.error .enoent "") ∧ e.Misses M) := by
  cases e with
  | add name ino type => exact .inl (h.step_add ha)
  | delete name =>
    obtain ⟨blocks, hh, hm⟩ := h
    rcases hh.scanForName_cases name with ⟨i, front, r, back, hrecs, hlive, rfl, hs⟩ | ⟨hs, hnone⟩
    · simp only [Directory.step, hs]
      exact .inl (delete hh hm hrecs hlive)
    · exact .inr ⟨by simp only [Directory.step, hs], hm.eq_none.mpr hnone⟩
  | retarget name ino type =>
    obtain ⟨blocks, hh, hm⟩ := h
    rcases hh.scanForName_cases name with ⟨i, front, r, back, hrecs, hlive, rfl, hs⟩ | ⟨hs, hnone⟩
    · simp only [Directory.step, hs]
      exact .inl (retarget type hh hm hrecs hlive ha.1 ha.2)
    · exact .inr ⟨by simp only [Directory.step, hs], hm.eq_none.mpr hnone⟩
  | grow =>
    obtain ⟨blocks, hh, hm⟩ := h
    exact .inl ⟨_, rfl, _, grow hh, by rwa [allLives_grown]⟩

theorem run {edits : List Edit} (h : dir.Linear M) (ha : Edit.Admit edits M)
    (hrun : dir.run edits = .ok dir') : dir'.Linear (Edit.meanings M edits) := by
  induction edits generalizing dir M with
  | nil =>
    cases hrun
    exact h
  | cons e rest ih =>
    rw [Directory.run] at hrun
    rcases h.step ha.1 with ⟨dir1, hs, h1⟩ | ⟨hs, -⟩
    · rw [hs] at hrun
      exact ih h1 ha.2 hrun
    · rw [hs] at hrun
      cases hrun

end Linear

def found (dir : Directory) (name : Name) : Except Fault Nat :=
  (dir.scanForName name).map DirEntryInfo.ino

def answer : Option Nat → Except Fault Nat
  | some ino => .ok ino
  | none => .error (.error .enoent "")

theorem linear_directory_refines {dir dir' : Directory} {M : Name → Option Nat} {edits : List Edit}
    (h : dir.Linear M) (ha : Edit.Admit edits M) (hrun : dir.run edits = .ok dir') :
    (∃ blocks, dir'.Holds blocks ∧
      ∀ recs ∈ blocks, recSpan (withTail dir'.csumSeed.isSome recs) = 4096 ∧ ∀ r ∈ recs, r.Wf) ∧
    ∀ name, dir'.found name = answer (Edit.meanings M edits name) := by
  have hlinear := h.run ha hrun
  obtain ⟨blocks, hh, -⟩ := hlinear
  refine ⟨⟨blocks, hh, fun recs hrecs => ?_⟩, fun name => ?_⟩
  · obtain ⟨i, hi⟩ := List.getElem?_of_mem hrecs
    obtain ⟨b, -, hf⟩ := hh.page i recs hi
    refine ⟨?_, fun r hr => hf.chain.wf r (List.mem_append_left _ hr)⟩
    have hstop := hf.chain.stop_eq
    rwa [Nat.zero_add] at hstop
  · rcases (h.run ha hrun).lookup name with ⟨info, hs, hM⟩ | ⟨hs, hM⟩
    · rw [found, hs, hM]
      rfl
    · rw [found, hs, hM]
      rfl

def bare : Directory := ⟨fun _ => some (DirBlock.fresh (payload false) false), 4096, none⟩

theorem bare_linear : bare.Linear fun _ => none := by
  refine ⟨[[emptyRec false]], ⟨rfl, fun i recs hi => ?_⟩, by simp [allLives, lives, emptyRec, Rec.live], ?_⟩
  · have hlen := (List.getElem?_eq_some_iff.mp hi).1
    rw [List.length_singleton] at hlen
    obtain rfl : i = 0 := by omega
    cases hi
    exact ⟨_, rfl, fresh_formed false⟩
  · simp [allLives, lives, emptyRec, Rec.live]

def shuffle : List Edit :=
  [.add [0x61] 12 .file, .add [0x62] 13 .dir, .delete [0x61], .grow, .retarget [0x62] 14 .file,
    .add [0x63, 0x64] 15 .file]

theorem shuffle_admitted : Edit.Admit shuffle fun _ => none := by
  simp [Edit.Admit, Edit.Admits, Edit.meaning, shuffle, nameMax]

theorem linear_directory_refines_shuffle :
    ∃ dir', bare.run shuffle = .ok dir' ∧ dir'.found [0x62] = .ok 14 ∧
      dir'.found [0x61] = .error (.error .enoent "") := by
  have hok : (bare.run shuffle).isOk = true := by decide +kernel
  cases hrun : bare.run shuffle with
  | error e =>
    rw [hrun] at hok
    cases hok
  | ok dir' =>
    have href := (linear_directory_refines bare_linear shuffle_admitted hrun).2
    exact ⟨dir', rfl, href [0x62], href [0x61]⟩

end Directory

end Ext4
