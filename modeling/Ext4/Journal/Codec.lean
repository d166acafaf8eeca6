import Ext4.Journal.Chain
import Ext4.Journal.Commit

namespace Ext4

open RawJournalHeader Bytes JournalCsumSeed TagLayout TagWriter LoggedBlock List

variable {ty off len bid csum low high o fuel : Nat} {a b bytes : Block} {flags : UInt16} {w : TagWriter}
  {ts : List DescriptorTag} {es : List Nat} {run : List (Nat × Block)} {tid : Tid}

namespace TagLayout

variable (l : TagLayout)

theorem tagBytes_bounds : 8 ≤ l.tagBytes ∧ l.tagBytes ≤ 16 := by
  have h := l.tag_eq
  split_ifs at h <;> omega

theorem tagBytes_high (h : l.hasBlocknrHigh = true) : 12 ≤ l.tagBytes := by
  have ht := l.tag_eq
  simp only [h, if_true] at ht
  split_ifs at ht <;> omega

theorem tagBytes_v3 (h : l.csumV3 = true) : l.tagBytes = 16 := by simpa [h] using l.tag_eq

theorem tagAreaEnd_bounds : 4092 ≤ l.tagAreaEnd ∧ l.tagAreaEnd ≤ 4096 := by
  rcases l.tail_eq with h | h <;> simp [tagAreaEnd, blockSize, h]

theorem tagAreaEnd_csum (h : l.hasCsum = true) : l.tagAreaEnd = 4092 := by
  rcases l.tail_eq with ht | ht
  · simp [hasCsum, ht] at h
  · simp [tagAreaEnd, blockSize, ht]

theorem hasCsum_v3 (h : l.csumV3 = true) : l.hasCsum = true := by
  simp [hasCsum, l.v3_tail h]

theorem tagsPerDescriptor_fits : l.tagsPerDescriptor * l.tagBytes + 28 ≤ l.tagAreaEnd := by
  have h := Nat.div_mul_le_self (l.tagAreaEnd - l.firstTagOffset - tagUuidBytes) l.tagBytes
  have := l.tagAreaEnd_bounds
  simp only [tagsPerDescriptor, firstTagOffset, journalHeaderSize, tagUuidBytes] at h ⊢
  omega

theorem tagsPerDescriptor_pos : 0 < l.tagsPerDescriptor := by
  have h1 := l.tagAreaEnd_bounds
  have h2 := l.tagBytes_bounds
  apply Nat.div_pos
  · simp only [firstTagOffset, journalHeaderSize, tagUuidBytes]
    omega
  · omega

theorem revokeEntryWidth_bounds : 4 ≤ l.revokeEntryWidth ∧ l.revokeEntryWidth ≤ 8 := by
  unfold revokeEntryWidth
  split <;> omega

theorem revokeEntriesPerBlock_fits :
    l.revokeEntriesPerBlock * l.revokeEntryWidth + 16 ≤ l.tagAreaEnd := by
  have h := Nat.div_mul_le_self (l.tagAreaEnd - revokeHeaderSize) l.revokeEntryWidth
  have := l.tagAreaEnd_bounds
  simp only [revokeEntriesPerBlock, revokeHeaderSize] at h ⊢
  omega

theorem revokeEntriesPerBlock_pos : 0 < l.revokeEntriesPerBlock := by
  have h1 := l.tagAreaEnd_bounds
  have h2 := l.revokeEntryWidth_bounds
  apply Nat.div_pos
  · simp only [revokeHeaderSize]
    omega
  · omega

def Encodable (l : TagLayout) (blocknr : Nat) : Prop :=
  blocknr < 2 ^ 64 ∧ (l.hasBlocknrHigh = false → blocknr < 2 ^ 32)

end TagLayout

theorem isChainBlock_putHeader (b : Block) (tid : Tid) (ht : ty < 2 ^ 32) :
    IsChainBlock (putHeader b ty tid) tid ty := by
  have hm : jbd2Magic % 256 ^ 4 = jbd2Magic := by decide
  have hs := tid.raw.toNat_lt
  constructor
  · simp only [parse, putHeader]
    rw [getBE_putBE_disjoint (by omega), getBE_putBE_disjoint (by omega),
      Bytes.getBE_putBE_same (by decide), hm]
  · simp only [parse, putHeader]
    rw [Bytes.getBE_putBE_same (by decide), Nat.mod_eq_of_lt (by simpa using hs)]
    ext
    simp [Tid.ofNat]
  · simp only [parse, putHeader]
    rw [getBE_putBE_disjoint (by omega), Bytes.getBE_putBE_same (by decide),
      Nat.mod_eq_of_lt (by simpa using ht)]

theorem IsChainBlock.congr (h : IsChainBlock a tid ty)
    (he : slice b 0 12 = slice a 0 12) : IsChainBlock b tid ty := by
  have h0 : Bytes.getBE b 0 4 = Bytes.getBE a 0 4 := getBE_congr_sub (k := 0) (by omega) he
  have h4 : Bytes.getBE b 4 4 = Bytes.getBE a 4 4 := by
    simpa using getBE_congr_sub (k := 4) (m := 4) (by omega) he
  have h8 : Bytes.getBE b 8 4 = Bytes.getBE a 8 4 := by
    simpa using getBE_congr_sub (k := 8) (m := 4) (by omega) he
  constructor
  · simpa [parse, h0] using h.magic
  · simpa [parse, h8] using h.sequence
  · simpa [parse, h4] using h.blocktype

section

variable (seed : JournalCsumSeed) (b : Block)

theorem verify_stampBlockTail :
    seed.verifyBlockTail (seed.stampBlockTail b) = true := by
  have hs := (seed.blockTailCsum b).toNat_lt
  simp only [verifyBlockTail, stampBlockTail, blockTailCsum]
  rw [Bytes.getBE_putBE_same (by decide), slice_putBE_disjoint (by omega), beq_iff_eq]
  exact Nat.mod_eq_of_lt (by simpa [blockTailCsum] using hs)

theorem verify_stampCommitBlock :
    seed.verifyCommitBlock (seed.stampCommitBlock b) = true := by
  have hs := (seed.commitBlockCsum b).toNat_lt
  simp only [verifyCommitBlock, stampCommitBlock, commitBlockCsum]
  rw [Bytes.getBE_putBE_same (by decide), slice_putBE_disjoint (by omega),
    slice_putBE_disjoint (by omega), beq_iff_eq]
  exact Nat.mod_eq_of_lt (by simpa [commitBlockCsum] using hs)

theorem slice_stampBlockTail (h : off + len ≤ 4092) :
    slice (seed.stampBlockTail b) off len = slice b off len :=
  slice_putBE_disjoint (.inl h)

end

theorem TagLayout.decodeTag_congr {l : TagLayout} (he : slice a off l.tagBytes = slice b off l.tagBytes) :
    l.decodeTag a off = l.decodeTag b off := by
  have h8 := l.tagBytes_bounds
  have hg : ∀ k m, k + m ≤ l.tagBytes → Bytes.getBE a (off + k) m = Bytes.getBE b (off + k) m :=
    fun k m h => getBE_congr_sub h he
  have h0 : Bytes.getBE a off 4 = Bytes.getBE b off 4 := hg 0 4 (by omega)
  unfold decodeTag
  by_cases hv : l.csumV3 = true
  · have h16 := l.tagBytes_v3 hv
    simp only [hv, if_true, h0, hg 4 4 (by omega), hg 8 4 (by omega), hg 12 4 (by omega)]
  · have hhigh : (if l.hasBlocknrHigh = true then Bytes.getBE a (off + blockTagSize) 4 else 0) =
        if l.hasBlocknrHigh = true then Bytes.getBE b (off + blockTagSize) 4 else 0 := by
      split_ifs with hh
      · exact hg 8 4 (by have := l.tagBytes_high hh; omega)
      · rfl
    rw [if_neg hv, if_neg hv, hhigh, h0, hg 6 2 (by omega), hg 4 2 (by omega)]

inductive ModeFor (l : TagLayout) : Option JournalCsumSeed → TagCsumMode → Prop
  | plain (h : l.hasCsum = false) : ModeFor l none .plain
  | v2 {seed} (h : l.hasCsum = true) (hv : l.csumV3 = false) : ModeFor l (some seed) (.v2 seed)
  | v3 {seed} (hv : l.csumV3 = true) : ModeFor l (some seed) (.v3 seed)

def tagCsum (l : TagLayout) (seed : Option JournalCsumSeed) (tid : Tid) (logged : Block) :
    Option TagChecksum :=
  seed.map fun s =>
    if l.csumV3 then .v3 (s.dataBlockCsum tid logged).toNat
    else .v2 ((s.dataBlockCsum tid logged).toNat % 2 ^ 16)

theorem joinBlocknr_split {l : TagLayout} (h : l.Encodable bid) :
    joinBlocknr (bid % 2 ^ 32)
      (if l.hasBlocknrHigh then bid / 2 ^ 32 % 2 ^ 32 else 0) = bid := by
  have h1 := h.1
  cases hh : l.hasBlocknrHigh
  · have := h.2 hh
    simp only [joinBlocknr, Bool.false_eq_true, if_false]
    omega
  · simp only [joinBlocknr, if_true]
    omega

theorem getBE_putTag3 (b : Block) (hoff : off + 16 ≤ 4096) (low high csum : Nat) (flags : UInt16) :
    Bytes.getBE (putTag3 b off low high csum flags) off 4 = low % 2 ^ 32 ∧
    Bytes.getBE (putTag3 b off low high csum flags) (off + 4) 4 = flags.toNat ∧
    Bytes.getBE (putTag3 b off low high csum flags) (off + 8) 4 = high % 2 ^ 32 ∧
    Bytes.getBE (putTag3 b off low high csum flags) (off + 12) 4 = csum % 2 ^ 32 := by
  have hf := flags.toNat_lt
  unfold putTag3
  refine ⟨?_, ?_, ?_, ?_⟩
  · simp (disch := omega) only [getBE_putBE_disjoint, Bytes.getBE_putBE_same]
    rfl
  · simp (disch := omega) only [getBE_putBE_disjoint, Bytes.getBE_putBE_same]
    exact Nat.mod_eq_of_lt (by omega)
  · rw [getBE_putBE_disjoint (by omega), Bytes.getBE_putBE_same (by omega)]
    rfl
  · rw [Bytes.getBE_putBE_same (by omega)]
    rfl

theorem getBE_putPrefixTag (l : TagLayout) (b : Block) (hoff : off + 8 ≤ 4096) (low high : Nat)
    (hcsum : csum < 2 ^ 16) (flags : UInt16) :
    Bytes.getBE (putPrefixTag b l off low high csum flags) off 4 = low % 2 ^ 32 ∧
    Bytes.getBE (putPrefixTag b l off low high csum flags) (off + 4) 2 = csum ∧
    Bytes.getBE (putPrefixTag b l off low high csum flags) (off + 6) 2 = flags.toNat := by
  have hf := flags.toNat_lt
  have core : ∀ b' : Block, (∀ k m, k + m ≤ 8 → Bytes.getBE b' (off + k) m = Bytes.getBE
      (putBE (putBE (putBE b off 4 low) (off + 4) 2 csum) (off + 6) 2 flags.toNat) (off + k) m) →
      Bytes.getBE b' off 4 = low % 2 ^ 32 ∧ Bytes.getBE b' (off + 4) 2 = csum ∧
        Bytes.getBE b' (off + 6) 2 = flags.toNat := by
    intro b' hb
    refine ⟨?_, ?_, ?_⟩
    · have h0 := hb 0 4 (by omega)
      rw [add_zero] at h0
      rw [h0, getBE_putBE_disjoint (by omega), getBE_putBE_disjoint (by omega),
        Bytes.getBE_putBE_same (by omega)]
      rfl
    · rw [hb 4 2 (by omega), getBE_putBE_disjoint (by omega),
        Bytes.getBE_putBE_same (by omega)]
      exact Nat.mod_eq_of_lt (by omega)
    · rw [hb 6 2 (by omega), Bytes.getBE_putBE_same (by omega)]
      exact Nat.mod_eq_of_lt (by omega)
  unfold putPrefixTag
  split
  · exact core _ fun k m h => getBE_putBE_disjoint (by simp only [blockTagSize]; omega)
  · exact core _ fun k m h => rfl

theorem decode_putTag3 {l : TagLayout} (hv : l.csumV3 = true) (b : Block) (hoff : off + l.tagBytes ≤ 4096)
    (hbid : l.Encodable bid) (flags : UInt16) (csum : UInt32) :
    l.decodeTag (putTag3 b off (bid % 2 ^ 32) (bid / 2 ^ 32 % 2 ^ 32) csum.toNat flags)
      off = .ok ⟨bid, flags, some (.v3 csum.toNat)⟩ := by
  have h16 := l.tagBytes_v3 hv
  have hf := flags.toNat_lt
  have hc := csum.toNat_lt
  obtain ⟨h0, h4, h8, h12⟩ := getBE_putTag3 b (by omega : off + 16 ≤ 4096) (bid % 2 ^ 32)
    (bid / 2 ^ 32 % 2 ^ 32) csum.toNat flags
  simp only [decodeTag, hv, if_true, h0, h4, h8, h12, not_le.mpr hf, if_false,
    Nat.mod_mod, joinBlocknr_split hbid, Nat.mod_eq_of_lt hc, UInt16.ofNat_toNat]

theorem decode_putPrefixTag {l : TagLayout} (hv : l.csumV3 = false) (b : Block) (hoff : off + l.tagBytes ≤ 4096)
    (hbid : l.Encodable bid) (flags : UInt16) (hcsum : csum < 2 ^ 16) :
    l.decodeTag (putPrefixTag b l off (bid % 2 ^ 32) (bid / 2 ^ 32 % 2 ^ 32) csum flags)
      off = .ok ⟨bid, flags, if l.hasCsum then some (.v2 csum) else none⟩ := by
  have h8 := l.tagBytes_bounds
  obtain ⟨h0, h4, h6⟩ := getBE_putPrefixTag l b (by omega : off + 8 ≤ 4096) (bid % 2 ^ 32)
    (bid / 2 ^ 32 % 2 ^ 32) hcsum flags
  have hhigh : (if l.hasBlocknrHigh = true then Bytes.getBE (putPrefixTag b l off
      (bid % 2 ^ 32) (bid / 2 ^ 32 % 2 ^ 32) csum flags) (off + blockTagSize) 4 else 0) =
      if l.hasBlocknrHigh = true then bid / 2 ^ 32 % 2 ^ 32 else 0 := by
    split_ifs with hh
    · have := l.tagBytes_high hh
      simp only [putPrefixTag, hh, if_true, blockTagSize]
      rw [Bytes.getBE_putBE_same (by omega)]
      exact Nat.mod_mod _ _
    · rfl
  simp only [decodeTag, hv, Bool.false_eq_true, if_false, h0, h4, h6, hhigh,
    Nat.mod_mod, joinBlocknr_split hbid, UInt16.ofNat_toNat]

theorem slice_putTag3 (h : o + len ≤ off ∨ off + 16 ≤ o) :
    slice (putTag3 b off low high csum flags) o len = slice b o len := by
  unfold putTag3
  rw [slice_putBE_disjoint (by omega), slice_putBE_disjoint (by omega),
    slice_putBE_disjoint (by omega), slice_putBE_disjoint (by omega)]

theorem slice_putPrefixTag {l : TagLayout} (h : o + len ≤ off ∨ off + l.tagBytes ≤ o) :
    slice (putPrefixTag b l off low high csum flags) o len =
      slice b o len := by
  have h8 := l.tagBytes_bounds
  unfold putPrefixTag
  split
  · rename_i hh
    have := l.tagBytes_high hh
    rw [slice_putBE_disjoint (by simp only [blockTagSize]; omega),
      slice_putBE_disjoint (by omega), slice_putBE_disjoint (by omega),
      slice_putBE_disjoint (by omega)]
  · rw [slice_putBE_disjoint (by omega), slice_putBE_disjoint (by omega),
      slice_putBE_disjoint (by omega)]

def uuidBytes (flags : UInt16) : Nat := if flags &&& tagFlagSameUuid = 0 then tagUuidBytes else 0

variable {seed : Option JournalCsumSeed}

theorem put_spec (hm : ModeFor w.layout seed w.mode) (hbid : w.layout.Encodable bid) (flags : UInt16)
    (logged : Block) (hroom : w.offset + w.layout.tagBytes + uuidBytes flags ≤ w.layout.tagAreaEnd) :
    ∃ b, w.put bid flags logged =
        .ok { w with offset := w.offset + w.layout.tagBytes + uuidBytes flags, block := b } ∧
      w.layout.decodeTag b w.offset = .ok ⟨bid, flags, tagCsum w.layout seed w.tid logged⟩ ∧
      ∀ o len, o + len ≤ w.offset ∨ w.offset + w.layout.tagBytes ≤ o →
        slice b o len = slice w.block o len := by
  obtain ⟨l, block, offset, tid, mode⟩ := w
  have harea := l.tagAreaEnd_bounds
  dsimp only at hm hbid hroom ⊢
  have hoff : offset + l.tagBytes ≤ 4096 := by omega
  have hhigh : ¬(bid / 2 ^ 32 % 2 ^ 32 ≠ 0 ∧ l.hasBlocknrHigh = false) := by
    rintro ⟨h1, h2⟩
    have := hbid.2 h2
    omega
  unfold uuidBytes at hroom ⊢
  simp only [TagWriter.put, TagLayout.splitBlocknr, hhigh, if_false, not_lt.mpr hroom]
  refine ⟨_, rfl, ?_⟩
  cases hm with
  | plain hc =>
    have hv : l.csumV3 = false := by
      cases hv : l.csumV3
      · rfl
      · simp [l.hasCsum_v3 hv] at hc
    refine ⟨?_, fun o len h => slice_putPrefixTag h⟩
    rw [decode_putPrefixTag hv _ hoff hbid flags (by decide)]
    simp [hc, tagCsum]
  | v2 hc hv =>
    refine ⟨?_, fun o len h => slice_putPrefixTag h⟩
    rw [decode_putPrefixTag hv _ hoff hbid flags (Nat.mod_lt _ (by decide))]
    simp [hc, tagCsum, hv]
  | v3 hv =>
    have h16 := l.tagBytes_v3 hv
    refine ⟨?_, fun o len h => slice_putTag3 (by omega)⟩
    rw [decode_putTag3 hv _ hoff hbid flags]
    simp [tagCsum, hv]

def TagsAt (l : TagLayout) (b : Block) : Nat → List DescriptorTag → Prop
  | _, [] => True
  | off, t :: ts => off + l.tagBytes ≤ l.tagAreaEnd ∧ l.decodeTag b off = .ok t ∧
      t.isLast = ts.isEmpty ∧ TagsAt l b (off + l.tagBytes + uuidBytes t.flags) ts

theorem TagsAt.congr {l : TagLayout} (h : TagsAt l a off ts)
    (he : ∀ o len, off ≤ o → o + len ≤ l.tagAreaEnd → slice b o len = slice a o len) :
    TagsAt l b off ts := by
  induction ts generalizing off with
  | nil => trivial
  | cons t ts ih =>
    obtain ⟨hoff, hd, hl, hrest⟩ := h
    refine ⟨hoff, ?_, hl, ih hrest fun o len ho => he o len (by omega)⟩
    rw [← hd]
    exact decodeTag_congr (he _ _ le_rfl hoff)

theorem walkFrom_of_tagsAt {l : TagLayout} (hne : ts ≠ []) (h : TagsAt l b off ts) (hf : ts.length ≤ fuel) :
    l.walkFrom b fuel off = ts.map .ok := by
  induction ts generalizing off fuel with
  | nil => exact absurd rfl hne
  | cons t ts ih =>
    obtain ⟨hoff, hd, hl, hrest⟩ := h
    obtain ⟨fuel, rfl⟩ := exists_fuel hf
    have huuid : (if t.reusesUuid = true then 0 else tagUuidBytes) = uuidBytes t.flags := by
      by_cases h0 : t.flags &&& tagFlagSameUuid = 0 <;>
        simp [uuidBytes, DescriptorTag.reusesUuid, h0]
    rw [walkFrom, if_neg (not_lt.mpr hoff), hd]
    dsimp only
    rw [hl, huuid]
    cases ts with
    | nil => rfl
    | cons t' ts =>
      rw [map_cons, ← ih (by simp) hrest (by simpa using hf)]
      rfl

def runTags (l : TagLayout) (seed : Option JournalCsumSeed) (tid : Tid) (len : Nat) :
    List (Nat × Block) → Nat → List DescriptorTag
  | [], _ => []
  | (bid, bytes) :: run, i =>
    ⟨bid, tagFlags (i == 0) (i == len - 1) (needsEscape bytes),
      tagCsum l seed tid (LoggedBlock.ofImage bytes).logged⟩ :: runTags l seed tid len run (i + 1)

@[simp] theorem runTags_length (l : TagLayout) (seed : Option JournalCsumSeed) (tid : Tid)
    (len : Nat) (run : List (Nat × Block)) (i : Nat) :
    (runTags l seed tid len run i).length = run.length := by
  induction run generalizing i with
  | nil => rfl
  | cons p run ih => simp [runTags, ih]

theorem tagFlags_uuid (first last escape : Bool) :
    uuidBytes (tagFlags first last escape) = if first then 16 else 0 := by
  cases first <;> cases last <;> cases escape <;> decide

section

variable (bid : Nat) (first last escape : Bool) (c : Option TagChecksum)

theorem tagFlags_last :
    (⟨bid, tagFlags first last escape, c⟩ : DescriptorTag).isLast = last := by
  change decide (tagFlags first last escape &&& tagFlagLastTag ≠ 0) = last
  cases first <;> cases last <;> cases escape <;> decide

theorem tagFlags_escaped :
    (⟨bid, tagFlags first last escape, c⟩ : DescriptorTag).isEscaped = escape := by
  change decide (tagFlags first last escape &&& tagFlagEscape ≠ 0) = escape
  cases first <;> cases last <;> cases escape <;> decide

end

theorem putRun_spec {i : Nat}
    (hm : ModeFor w.layout seed w.mode) (henc : ∀ p ∈ run, w.layout.Encodable p.1) (hlen : i + run.length = len)
    (hroom : w.offset + run.length * w.layout.tagBytes + (if i = 0 then 16 else 0) ≤
      w.layout.tagAreaEnd) :
    ∃ w', putRun len run i w = .ok w' ∧ w'.layout = w.layout ∧ w'.mode = w.mode ∧
      TagsAt w.layout w'.block w.offset (runTags w.layout seed w.tid len run i) ∧
      ∀ o n, o + n ≤ w.offset → slice w'.block o n = slice w.block o n := by
  induction run generalizing i w with
  | nil => exact ⟨w, rfl, rfl, rfl, trivial, fun _ _ _ => rfl⟩
  | cons p run ih =>
    obtain ⟨bid, bytes⟩ := p
    simp only [length_cons, Nat.succ_mul] at hroom hlen
    have huuid := tagFlags_uuid (i == 0) (i == len - 1) (needsEscape bytes)
    simp only [beq_iff_eq] at huuid
    obtain ⟨b, hput, hdec, hout⟩ := put_spec hm (henc (bid, bytes) (by simp))
      (tagFlags (i == 0) (i == len - 1) (needsEscape bytes)) (ofImage bytes).logged
      (by rw [huuid]; omega)
    have hroom' : w.offset + w.layout.tagBytes +
        uuidBytes (tagFlags (i == 0) (i == len - 1) (needsEscape bytes)) +
        run.length * w.layout.tagBytes + (if i + 1 = 0 then 16 else 0) ≤ w.layout.tagAreaEnd := by
      rw [huuid, if_neg (Nat.succ_ne_zero i)]
      omega
    obtain ⟨w', hrun, hl, hmode, htags, hkeep⟩ := ih (w := { w with
      offset := w.offset + w.layout.tagBytes +
        uuidBytes (tagFlags (i == 0) (i == len - 1) (needsEscape bytes))
      block := b }) hm (fun q hq => henc q (by simp [hq])) (by omega) hroom'
    refine ⟨w', by simp only [putRun, hput]; exact hrun, hl, hmode, ⟨?_, ?_, ?_, htags⟩, ?_⟩
    · omega
    · rw [← hdec]
      refine decodeTag_congr (hkeep _ _ ?_)
      dsimp only
      omega
    · rw [tagFlags_last]
      cases run with
      | nil =>
        simp only [length_nil] at hlen
        simp [runTags]
        omega
      | cons q run =>
        simp only [length_cons] at hlen
        simp [runTags]
        omega
    · intro o n ho
      rw [hkeep o n (by dsimp only; omega), hout o n (.inl ho)]

theorem writer_mode {l : TagLayout} (hseed : seed.isSome = l.hasCsum) (b : Block) (tid : Tid) :
    ∃ mode, l.writer b tid seed = .ok ⟨l, b, l.firstTagOffset, tid, mode⟩ ∧ ModeFor l seed mode := by
  cases seed with
  | none =>
    have hc : l.hasCsum = false := by simpa using hseed.symm
    exact ⟨.plain, by simp [writer, hc], .plain hc⟩
  | some s =>
    have hc : l.hasCsum = true := by simpa using hseed.symm
    cases hv : l.csumV3
    · exact ⟨.v2 s, by simp [writer, hc, hv], .v2 hc hv⟩
    · exact ⟨.v3 s, by simp [writer, hv], .v3 hv⟩

theorem slice_finish (hm : ModeFor w.layout seed w.mode) (h : o + len ≤ w.layout.tagAreaEnd) :
    slice w.finish o len = slice w.block o len := by
  obtain ⟨l, b, off, tid, mode⟩ := w
  cases hm with
  | plain => rfl
  | v2 hc _ => exact slice_stampBlockTail _ _ (by rw [← l.tagAreaEnd_csum hc]; exact h)
  | v3 hv => exact slice_stampBlockTail _ _ (by rw [← l.tagAreaEnd_csum (l.hasCsum_v3 hv)]; exact h)

theorem verify_finish {seed : JournalCsumSeed}
    (hm : ModeFor w.layout (some seed) w.mode) : seed.verifyBlockTail w.finish = true := by
  obtain ⟨l, b, off, tid, mode⟩ := w
  cases hm <;> exact verify_stampBlockTail _ _

def sealedTail (seed : Option JournalCsumSeed) (block : Block) : Prop :=
  ∀ s, seed = some s → s.verifyBlockTail block = true

theorem buildDescriptorRun_spec {l : TagLayout} (hseed : seed.isSome = l.hasCsum) (hne : run ≠ [])
    (hlen : run.length ≤ l.tagsPerDescriptor) (henc : ∀ p ∈ run, l.Encodable p.1) :
    ∃ block, buildDescriptorRun tid l seed run =
        .ok ⟨block, run.map fun p => ofImage p.2⟩ ∧
      IsChainBlock block tid blocktypeDescriptor ∧
      l.walk block = (runTags l seed tid run.length run 0).map .ok ∧ sealedTail seed block := by
  obtain ⟨mode, hw, hm⟩ := writer_mode hseed (putHeader (zeros _) blocktypeDescriptor tid) tid
  have hfit := l.tagsPerDescriptor_fits
  have hmul : run.length * l.tagBytes ≤ l.tagsPerDescriptor * l.tagBytes :=
    Nat.mul_le_mul_right _ hlen
  have hroom : l.firstTagOffset + run.length * l.tagBytes + (if (0 : Nat) = 0 then 16 else 0) ≤
      l.tagAreaEnd := by
    simp only [firstTagOffset, journalHeaderSize, if_true]
    omega
  obtain ⟨w', hrun, hl, hmode, htags, hkeep⟩ := putRun_spec (w := ⟨l,
    putHeader (zeros _) blocktypeDescriptor tid, l.firstTagOffset, tid, mode⟩) hm henc
    (zero_add _) hroom
  have hm' : ModeFor w'.layout seed w'.mode := by
    rw [hl, hmode]
    exact hm
  have hl' : w'.layout = l := hl
  have harea := l.tagAreaEnd_bounds
  refine ⟨w'.finish, ?_, ?_, ?_, ?_⟩
  · rw [buildDescriptorRun, hw]
    change (putRun run.length run 0 _ >>= _) = _
    rw [hrun]
    rfl
  · refine (isChainBlock_putHeader (zeros _) tid (by decide)).congr ?_
    rw [slice_finish hm' (by rw [hl']; omega)]
    exact hkeep 0 12 (Nat.le_refl 12)
  · refine walkFrom_of_tagsAt ?_ (htags.congr fun o len _ ho => slice_finish hm' ?_) ?_
    · intro h
      have := congrArg length h
      simp only [runTags_length, length_nil] at this
      exact hne (length_eq_zero_iff.mp this)
    · rw [hl']
      exact ho
    · have h8 := l.tagBytes_bounds
      simp only [runTags_length, blockSize]
      have : run.length * 8 ≤ run.length * l.tagBytes := Nat.mul_le_mul_left _ h8.1
      omega
  · rintro s rfl
    exact verify_finish hm'

theorem restoreMagic_zeroHead (h : needsEscape bytes = true) :
    restoreMagic (zeroHead bytes) = bytes := by
  have hs : slice bytes 0 4 = be 4 jbd2Magic := by simpa [needsEscape] using h
  rw [restoreMagic, zeroHead, putBE, splice_splice_same (by simp), ← hs]
  exact splice_slice

theorem loggedImage_logged {t : DescriptorTag} (h : t.isEscaped = needsEscape bytes) :
    loggedImage t (ofImage bytes).logged = bytes := by
  cases hn : needsEscape bytes
  · simp [loggedImage, h, hn, ofImage, logged]
  · simpa [loggedImage, h, hn, ofImage, logged] using
      restoreMagic_zeroHead hn

theorem verifyDataCsum_tagCsum (l : TagLayout) (seed : JournalCsumSeed) (tid : Tid) (bid : Nat)
    (flags : UInt16) (logged : Block) :
    (⟨bid, flags, tagCsum l (some seed) tid logged⟩ : DescriptorTag).verifyDataCsum seed tid
      logged = true := by
  cases hv : l.csumV3 <;> simp [DescriptorTag.verifyDataCsum, tagCsum, hv]

theorem buildCommitBlock_spec (tid : Tid) (seed : Option JournalCsumSeed) (now : Timestamp) :
    IsChainBlock (buildCommitBlock tid seed now) tid blocktypeCommit ∧
      ∀ s, seed = some s → s.verifyCommitBlock (buildCommitBlock tid seed now) = true := by
  constructor
  · refine (isChainBlock_putHeader (zeros _) tid (by decide)).congr ?_
    cases seed with
    | none =>
      simp only [buildCommitBlock]
      rw [slice_putBE_disjoint (by omega), slice_putBE_disjoint (by omega)]
    | some s =>
      simp only [buildCommitBlock, stampCommitBlock, commitChksumOffset]
      rw [slice_putBE_disjoint (by omega), slice_putBE_disjoint (by omega),
        slice_putBE_disjoint (by omega)]
  · rintro s rfl
    exact verify_stampCommitBlock _ _

def EntriesAt (l : TagLayout) (b : Block) : Nat → List Nat → Prop
  | _, [] => True
  | off, e :: es => Bytes.getBE b off l.revokeEntryWidth = e ∧
      EntriesAt l b (off + l.revokeEntryWidth) es

theorem EntriesAt.congr {l : TagLayout} (h : EntriesAt l a off es) (hi : Nat)
    (hfit : off + es.length * l.revokeEntryWidth ≤ hi)
    (he : ∀ o len, off ≤ o → o + len ≤ hi → slice b o len = slice a o len) :
    EntriesAt l b off es := by
  induction es generalizing off with
  | nil => trivial
  | cons e es ih =>
    simp only [length_cons, Nat.succ_mul] at hfit
    obtain ⟨hd, hrest⟩ := h
    refine ⟨?_, ih hrest (by omega) fun o len ho => he o len (by omega)⟩
    rw [Bytes.getBE, he off _ le_rfl (by omega)]
    exact hd

theorem revokeEntries_of_entriesAt {l : TagLayout} (h : EntriesAt l b off es) (hf : es.length ≤ fuel) :
    l.revokeEntries b (off + es.length * l.revokeEntryWidth) fuel off = es := by
  have hwidth := l.revokeEntryWidth_bounds
  induction es generalizing off fuel with
  | nil =>
    cases fuel with
    | zero => rfl
    | succ fuel =>
      rw [revokeEntries, if_pos]
      simp only [length_nil]
      omega
  | cons e es ih =>
    obtain ⟨fuel, rfl⟩ := exists_fuel hf
    obtain ⟨hd, hrest⟩ := h
    have hstep := ih hrest (by simpa using hf)
    have hend : off + l.revokeEntryWidth + es.length * l.revokeEntryWidth =
        off + (e :: es).length * l.revokeEntryWidth := by
      simp only [length_cons, Nat.succ_mul]
      omega
    rw [hend] at hstep
    rw [revokeEntries, if_neg, hd, hstep]
    simp only [length_cons, Nat.succ_mul]
    omega

theorem revoke_put_spec {w : RevokeBlockWriter} (hbid : w.layout.Encodable bid)
    (hroom : w.offset + w.layout.revokeEntryWidth ≤ w.layout.tagAreaEnd) :
    w.put bid = .ok { w with
        block := putBE w.block w.offset w.layout.revokeEntryWidth bid
        offset := w.offset + w.layout.revokeEntryWidth } ∧
      Bytes.getBE (putBE w.block w.offset w.layout.revokeEntryWidth bid) w.offset
        w.layout.revokeEntryWidth = bid := by
  have harea := w.layout.tagAreaEnd_bounds
  have hnarrow : ¬(w.layout.hasBlocknrHigh = false ∧ 2 ^ 32 ≤ bid) := by
    rintro ⟨h1, h2⟩
    exact not_lt.mpr h2 (hbid.2 h1)
  constructor
  · simp only [RevokeBlockWriter.put, not_lt.mpr hroom, hnarrow, if_false]
  · rw [Bytes.getBE_putBE_same (by omega)]
    apply Nat.mod_eq_of_lt
    unfold TagLayout.revokeEntryWidth
    split_ifs with hh
    · exact hbid.1
    · exact hbid.2 (by simpa using hh)

theorem revoke_putAll_spec {run : List Nat} {w : RevokeBlockWriter} (henc : ∀ b ∈ run, w.layout.Encodable b)
    (hroom : w.offset + run.length * w.layout.revokeEntryWidth ≤ w.layout.tagAreaEnd) :
    ∃ w', run.foldlM RevokeBlockWriter.put w = .ok w' ∧ w'.layout = w.layout ∧ w'.seed = w.seed ∧
      w'.offset = w.offset + run.length * w.layout.revokeEntryWidth ∧
      EntriesAt w.layout w'.block w.offset run ∧
      ∀ o n, o + n ≤ w.offset → slice w'.block o n = slice w.block o n := by
  induction run generalizing w with
  | nil => exact ⟨w, rfl, rfl, rfl, by simp, trivial, fun _ _ _ => rfl⟩
  | cons b run ih =>
    simp only [length_cons, Nat.succ_mul] at hroom
    obtain ⟨hput, hget⟩ := revoke_put_spec (henc b (by simp))
      (by omega : w.offset + w.layout.revokeEntryWidth ≤ w.layout.tagAreaEnd)
    obtain ⟨w', hrun, hl, hs, hoff, hents, hkeep⟩ := ih (w := { w with
      block := putBE w.block w.offset w.layout.revokeEntryWidth b
      offset := w.offset + w.layout.revokeEntryWidth }) (fun q hq => henc q (by simp [hq]))
      (by dsimp only; omega)
    refine ⟨w', ?_, hl, hs, ?_, ⟨?_, hents⟩, ?_⟩
    · rw [foldlM_cons, hput]
      exact hrun
    · rw [hoff, length_cons, Nat.succ_mul]
      dsimp only
      omega
    · rw [Bytes.getBE, hkeep _ _ le_rfl]
      exact hget
    · intro o n ho
      rw [hkeep o n (by dsimp only; omega)]
      exact slice_putBE_disjoint (.inl ho)

theorem slice_revoke_finish {w : RevokeBlockWriter} (hseed : w.seed.isSome = w.layout.hasCsum)
    (h : o + len ≤ 12 ∨ 16 ≤ o) (hend : o + len ≤ w.layout.tagAreaEnd) :
    slice w.finish o len = slice w.block o len := by
  have hcount : slice (putBE w.block journalHeaderSize 4 w.offset) o len =
      slice w.block o len := slice_putBE_disjoint (by simpa [journalHeaderSize] using h)
  unfold RevokeBlockWriter.finish
  cases hs : w.seed with
  | none => exact hcount
  | some s =>
    have hc : w.layout.hasCsum = true := by simpa [hs] using hseed.symm
    have hend' : o + len ≤ 4092 := by rw [← w.layout.tagAreaEnd_csum hc]; exact hend
    dsimp only
    rw [slice_stampBlockTail _ _ hend', hcount]

theorem revoke_finish_count {w : RevokeBlockWriter} (hoff : w.offset < 2 ^ 32) :
    Bytes.getBE w.finish journalHeaderSize 4 = w.offset := by
  have hcount : Bytes.getBE (putBE w.block journalHeaderSize 4 w.offset) journalHeaderSize 4 =
      w.offset := by
    rw [Bytes.getBE_putBE_same (by decide)]
    exact Nat.mod_eq_of_lt hoff
  unfold RevokeBlockWriter.finish
  cases w.seed with
  | none => exact hcount
  | some s =>
    dsimp only
    rw [Bytes.getBE, slice_stampBlockTail _ _ (by decide)]
    exact hcount

theorem buildRevokeBlock_spec {l : TagLayout} (hseed : seed.isSome = l.hasCsum) {run : List Nat}
    (hlen : run.length ≤ l.revokeEntriesPerBlock) (henc : ∀ b ∈ run, l.Encodable b) :
    ∃ block, buildRevokeBlock tid l seed run = .ok block ∧
      IsChainBlock block tid blocktypeRevoke ∧ l.walkRevoke block = .ok run ∧
      sealedTail seed block := by
  have hfit := l.revokeEntriesPerBlock_fits
  have hwidth := l.revokeEntryWidth_bounds
  have harea := l.tagAreaEnd_bounds
  have hmul : run.length * l.revokeEntryWidth ≤ l.revokeEntriesPerBlock * l.revokeEntryWidth :=
    Nat.mul_le_mul_right _ hlen
  obtain ⟨w', hrun, hl, hs, hoff, hents, hkeep⟩ := revoke_putAll_spec
    (w := ⟨l, putHeader (zeros _) blocktypeRevoke tid, revokeHeaderSize, seed⟩) henc
    (by simp only [revokeHeaderSize]; omega)
  dsimp only at hl hs hoff hents hkeep
  have hseed' : w'.seed.isSome = w'.layout.hasCsum := by rw [hs, hl]; exact hseed
  have hoff' : w'.offset ≤ l.tagAreaEnd := by
    rw [hoff]
    simp only [revokeHeaderSize]
    omega
  refine ⟨w'.finish, ?_, ?_, ?_, ?_⟩
  · rw [buildRevokeBlock, revokeWriter, if_neg (by simpa using hseed)]
    change (run.foldlM RevokeBlockWriter.put _ >>= _) = _
    rw [hrun]
    rfl
  · refine (isChainBlock_putHeader (zeros _) tid (by decide)).congr ?_
    rw [slice_revoke_finish hseed' (by omega) (by rw [hl]; omega)]
    exact hkeep 0 12 (by decide)
  · have hcount := revoke_finish_count (w := w') (by omega)
    rw [walkRevoke, hcount, if_neg (not_lt.mpr hoff'), hoff, revokeEntries_of_entriesAt]
    · refine hents.congr l.tagAreaEnd ?_ fun o len ho hend => ?_
      · rw [← hoff]
        exact hoff'
      · exact slice_revoke_finish hseed' (.inr ho) (by rw [hl]; exact hend)
    · have : run.length * 4 ≤ run.length * l.revokeEntryWidth := Nat.mul_le_mul_left _ hwidth.1
      simp only [blockSize]
      omega
  · rintro s rfl
    rw [RevokeBlockWriter.finish, hs]
    exact verify_stampBlockTail _ _

end Ext4
