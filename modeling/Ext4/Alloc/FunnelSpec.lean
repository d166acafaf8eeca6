import Ext4.Alloc.Funnel
import Mathlib.Data.Finset.Card

namespace Ext4

open Transaction Finset

variable {g : JournalGeometry}

variable {txn : Transaction} {b bid n : Nat} {content : Option Block} {S T T' : Finset Nat}
  {st : JournalState} {generation : Nat} {e : Fault}

namespace Transaction

variable {captured : Transaction} {seed device : Option Block}

section

variable (txn : Transaction)

theorem bufferBytes_eq_join (b : Nat) :
    txn.bufferBytes b = (txn.record.event b).join := by
  rw [event_record]
  cases txn.bufferBytes b with
  | some v => rfl
  | none => split_ifs <;> rfl

theorem bufferBytes_captureWrite (bid : Nat) (seed device : Option Block) (b : Nat) :
    (txn.captureWrite bid seed device).2.bufferBytes b =
      if b = bid then (txn.bufferBytes bid).or (seed.or device) else txn.bufferBytes b := by
  rw [bufferBytes_eq_join, (txn.captureWrite_spec bid seed device).2 b]
  split_ifs
  · cases (txn.bufferBytes bid).or (seed.or device) <;> rfl
  · exact (bufferBytes_eq_join txn b).symm

theorem bufferBytes_captureCreate (bid b : Nat) :
    (txn.captureCreate bid).2.bufferBytes b =
      if b = bid then some ((txn.bufferBytes bid).getD (Bytes.zeros _)) else txn.bufferBytes b := by
  rw [bufferBytes_eq_join, (txn.captureCreate_spec bid).2 b]
  split_ifs
  · rfl
  · exact (bufferBytes_eq_join txn b).symm

theorem isCaptured_eq (b : Nat) :
    txn.isCaptured b = (txn.bufferBytes b).isSome := by
  simp [isCaptured, bufferBytes]

end

theorem captureWrite_error (h : txn.captureWrite bid seed device = (.error e, captured)) :
    txn.isCaptured bid = false ∧ seed.or device = none := by
  cases hget : (txn.unrevoke bid).metadata.get bid with
  | some capture => simp [captureWrite, hget] at h
  | none =>
    cases hsrc : seed.or device with
    | some bytes => simp [captureWrite, hget, hsrc] at h
    | none =>
      have hget' : txn.metadata.get bid = none := hget
      exact ⟨by simp [isCaptured, hget'], rfl⟩

end Transaction

theorem charge_remaining (h : Handle) (txn : Transaction) :
    h.remaining ≤ (chargeFreshCapture g h txn).2.1.remaining + 1 := by
  by_cases h0 : h.remaining = 0
  · omega
  · simp only [chargeFreshCapture, if_neg h0, Handle.spendOneCredit]
    omega

theorem charge_refused {g : JournalGeometry} {h : Handle} (he : (chargeFreshCapture g h txn).1 = .error e) :
    h.remaining = 0 ∧ (chargeFreshCapture g h txn).2.1 = h := by
  by_cases h0 : h.remaining = 0
  · refine ⟨h0, ?_⟩
    unfold chargeFreshCapture at he ⊢
    rw [if_pos h0] at he ⊢
    cases hb : tryGrowReservation g h txn extendBatchBlocks with
    | mk outcome rest =>
      rw [hb] at he
      cases outcome with
      | granted => cases he
      | needsRestart =>
        cases h1 : tryGrowReservation g h txn 1 with
        | mk outcome rest =>
          simp only [h1] at he ⊢
          cases outcome with
          | granted => cases he
          | needsRestart => rfl
  · rw [chargeFreshCapture, if_neg h0] at he
    cases he

namespace JournalState

variable {st st' : JournalState} {txn txn' : Transaction} {h h' : Handle}

theorem Serves.newest (hs : st.Serves txn h) (b : Nat) :
    st.newest b = (txn.bufferBytes b).or ((st.uncheckpointed b).map UncheckpointedImage.image) := by
  obtain ⟨hseats, hactive, -⟩ := hs
  unfold JournalState.active at hactive
  unfold JournalState.newest
  rcases hseats with hr | hl
  · rw [hr, Option.none_or] at hactive
    simp [hr, hactive]
  · rw [hl, Option.or_none] at hactive
    simp [hl, hactive]

theorem Serves.captureSeed (hs : st.Serves txn h) (b : Nat) :
    st.captureSeed h.tid b = (st.uncheckpointed b).map UncheckpointedImage.image := by
  obtain ⟨hseats, hactive, htid⟩ := hs
  unfold JournalState.captureSeed
  rcases hseats with hr | hl
  · simp [hr]
  · simp [hl]

@[simp] theorem setActive_uncheckpointed (st : JournalState) (txn : Transaction) :
    (st.setActive txn).uncheckpointed = st.uncheckpointed := by
  unfold JournalState.setActive
  split_ifs <;> rfl

@[simp] theorem setActive_pinnedFrees (st : JournalState) (txn : Transaction) :
    (st.setActive txn).pinnedFrees = st.pinnedFrees := by
  unfold JournalState.setActive
  split_ifs <;> rfl

structure Captures (st : JournalState) (txn : Transaction) (h : Handle) (bid : Nat)
    (content : Option Block) (res : Except Fault Nat × Handle × JournalState) (txn' : Transaction) :
    Prop where
  serves : res.2.2.Serves txn' res.2.1
  transfer : Transfer txn txn' h res.2.1
  retained : res.2.2.uncheckpointed = st.uncheckpointed
  pins : res.2.2.pinnedFrees = st.pinnedFrees
  bytes : ∀ b, txn'.bufferBytes b = if b = bid then content else txn.bufferBytes b
  spent : h.remaining ≤ res.2.1.remaining + if txn.isCaptured bid then 0 else 1
  granted : ∀ generation, res.1 = .ok generation →
    ∃ c, txn'.metadata.get bid = some c ∧ c.generation = generation
  refused : ∀ e, res.1 = .error e → txn.isCaptured bid = false ∧ res.2.1 = h ∧
    (h.remaining = 0 ∨ content = none)

section

variable (hs : st.Serves txn h) (hle : h.remaining ≤ txn.outstandingCredits)

include hs hle

theorem Serves.settle_captures
    (ht : Transfer txn txn' h h) (hbytes : ∀ b, txn'.bufferBytes b = if b = bid then content else txn.bufferBytes b)
    (hgen : ∃ c, txn'.metadata.get bid = some c ∧ c.generation = generation) :
    ∃ txn'', st.Captures txn h bid content
      (settleCapture g h st (!txn.isCaptured bid) generation txn') txn'' := by
  unfold settleCapture
  cases hcap : txn.isCaptured bid with
  | true =>
    obtain ⟨hseats, hactive⟩ := hs.seat ht.tid
    refine ⟨txn', ⟨hseats, hactive, ht.tid.trans hs.tid⟩, ht, by simp, by simp, hbytes, by simp,
      fun gen hok => ?_, fun e herr => ?_⟩
    · simp only [Bool.not_true, Bool.false_eq_true, if_false, Except.ok.injEq] at hok
      exact hok ▸ hgen
    · simp at herr
  | false =>
    simp only [Bool.not_false, if_true]
    have hcr := ht.credits
    have htc : Transfer txn (chargeFreshCapture g h txn').2.2 h (chargeFreshCapture g h txn').2.1 :=
      ht.trans (.charge g (by omega))
    have hmeta := metadata_charge g h txn'
    obtain ⟨hseats, hactive⟩ := hs.seat htc.tid
    refine ⟨(chargeFreshCapture g h txn').2.2,
      ⟨hseats, hactive, (htc.tid.trans hs.tid).trans htc.handle.symm⟩, htc, by simp, by simp, ?_, ?_,
      fun gen hok => ?_, fun e herr => ?_⟩
    · intro b
      rw [← hbytes b]
      simp only [Transaction.bufferBytes, hmeta]
    · simpa [hcap] using charge_remaining h txn'
    · cases hres : (chargeFreshCapture g h txn').1 with
      | error e => simp [hres, Except.map] at hok
      | ok u =>
        simp only [hres, Except.map, Except.ok.injEq] at hok
        rw [hmeta]
        exact hok ▸ hgen
    · cases hres : (chargeFreshCapture g h txn').1 with
      | error e =>
        obtain ⟨h0, hsame⟩ := charge_refused hres
        exact ⟨hcap, hsame, .inl h0⟩
      | ok u => simp [hres, Except.map] at herr

theorem Serves.getWrite_captures (bid : Nat) (device : Option Block) :
    ∃ txn', st.Captures txn h bid
      ((txn.bufferBytes bid).or (((st.uncheckpointed bid).map UncheckpointedImage.image).or device))
      (st.getWriteAccess g h bid device) txn' := by
  have hbytes := txn.bufferBytes_captureWrite bid (st.captureSeed h.tid bid) device
  have ht := Transfer.captureWrite h txn bid (st.captureSeed h.tid bid) device
  rw [← hs.captureSeed bid]
  simp only [JournalState.getWriteAccess, hs.activeTxn]
  cases hc : txn.captureWrite bid (st.captureSeed h.tid bid) device with
  | mk res captured =>
    rw [hc] at hbytes ht
    cases res with
    | error e =>
      obtain ⟨hcap, hnone⟩ := captureWrite_error hc
      obtain ⟨hseats, hactive⟩ := hs.seat ht.tid
      refine ⟨captured, ⟨hseats, hactive, ht.tid.trans hs.tid⟩, ht, by simp, by simp, hbytes, by simp,
        fun gen hok => ?_, fun e _ => ?_⟩
      · cases hok
      · rw [Transaction.isCaptured_eq, Option.isSome_eq_false_iff, Option.isNone_iff_eq_none] at hcap
        exact ⟨by simp [Transaction.isCaptured_eq, hcap], rfl, .inr (by rw [hcap, hnone]; rfl)⟩
    | ok generation =>
      exact hs.settle_captures hle ht hbytes (metadata_captureWrite hc)

theorem Serves.getCreate_captures (bid : Nat) :
    ∃ txn', st.Captures txn h bid (some ((txn.bufferBytes bid).getD (Bytes.zeros _)))
      (st.getCreateAccess g h bid) txn' := by
  simp only [JournalState.getCreateAccess, hs.activeTxn]
  exact hs.settle_captures hle (.captureCreate h txn bid) (txn.bufferBytes_captureCreate bid)
    (txn.metadata_captureCreate bid)

end

end JournalState

namespace Fs

variable {α : Type} {res : Except Fault Nat × Handle × JournalState}

structure Live (fs : Fs) (h : Handle) (j : Journal) (txn : Transaction) : Prop where
  handle : fs.handle = some h
  journal : fs.journal = some j
  serves : j.state.Serves txn h
  credits : h.remaining ≤ txn.outstandingCredits

inductive Ready (fs : Fs) : Prop
  | plain (handle : fs.handle = none) (journal : fs.journal = none)
  | live {h : Handle} {j : Journal} {txn : Transaction} (live : fs.Live h j txn)

def captured (fs : Fs) (b : Nat) : Bool :=
  match fs.handle, fs.journal with
  | some h, some j => (j.state.activeTxn h.tid).any fun txn => txn.isCaptured b
  | _, _ => false

def Covers (fs : Fs) (S : Finset Nat) (n : Nat) : Prop :=
  ∀ h, fs.handle = some h → (S.filter fun b => fs.captured b = false).card + n ≤ h.remaining

inductive Granted (fs : Fs) (access : WriteAccess) (b : Nat) : Prop
  | inert (access : access.live = none) (handle : fs.handle = none)
  | captured {h : Handle} {j : Journal} {txn : Transaction} {c : Capture} (live : fs.Live h j txn)
      (access : access.live = some (b, c.generation)) (capture : txn.metadata.get b = some c)

structure Evolves (fs fs' : Fs) (image : Nat → Option Block) (T : Finset Nat) : Prop where
  sb : fs'.sb = fs.sb
  groups : fs'.groups = fs.groups
  device : fs'.device = fs.device
  aborted : fs'.aborted = fs.aborted
  ready : fs'.Ready
  mode : fs'.handle.isSome = fs.handle.isSome
  image : ∀ b, fs'.image b = image b
  credits : ∀ S n, T ⊆ S → fs.Covers S n → fs'.Covers S n

variable {fs fs' fs'' : Fs} {h h' : Handle} {j : Journal} {txn txn' : Transaction}

theorem Live.image (hl : fs.Live h j txn) (b : Nat) :
    fs.image b = ((txn.bufferBytes b).or
      ((j.state.uncheckpointed b).map UncheckpointedImage.image)).or (fs.device b) := by
  simp only [Fs.image, hl.journal, hl.serves.newest b]

theorem Live.captured (hl : fs.Live h j txn) (b : Nat) : fs.captured b = txn.isCaptured b := by
  simp [Fs.captured, hl.handle, hl.journal, hl.serves.activeTxn]

theorem Live.covers (hl : fs.Live h j txn) :
    fs.Covers S n ↔ (S.filter fun b => txn.isCaptured b = false).card + n ≤ h.remaining := by
  unfold Covers
  simp only [hl.captured, hl.handle, Option.some.injEq, forall_eq']

def resumed (fs : Fs) (h : Handle) (j : Journal) (st : JournalState) : Fs :=
  { fs with handle := some h, journal := some (j.withState st) }

theorem Live.resume (hl : fs.Live h j txn) (hs : st.Serves txn' h')
    (ht : Transfer txn txn' h h') : (fs.resumed h' j st).Live h' (j.withState st) txn' where
  handle := rfl
  journal := rfl
  serves := hs
  credits := by
    have hc := ht.credits
    have hle := hl.credits
    omega

theorem card_uncaptured_lt {p q : Nat → Prop} [DecidablePred p] [DecidablePred q] (hmem : bid ∈ S) (hp : p bid) (hq : ¬q bid) (hle : ∀ b, q b → p b) :
    (S.filter q).card + 1 ≤ (S.filter p).card := by
  have hsub : S.filter q ⊆ (S.filter p).erase bid := fun b hb => by
    obtain ⟨hS, hb⟩ := Finset.mem_filter.mp hb
    refine mem_erase.mpr ⟨?_, Finset.mem_filter.mpr ⟨hS, hle b hb⟩⟩
    rintro rfl
    exact hq hb
  have hbid : bid ∈ S.filter p := Finset.mem_filter.mpr ⟨hmem, hp⟩
  have hcard := Finset.card_le_card hsub
  have hpos := card_pos.mpr ⟨bid, hbid⟩
  rw [card_erase_of_mem hbid] at hcard
  omega

theorem Live.evolves (hl : fs.Live h j txn) (hs : st.Serves txn' h')
    (ht : Transfer txn txn' h h') {image : Nat → Option Block}
    (himage : ∀ b, (fs.resumed h' j st).image b = image b)
    (hcap : ∀ b, txn.isCaptured b = true → txn'.isCaptured b = true)
    (hcost : h.remaining ≤ h'.remaining ∨ h.remaining ≤ h'.remaining + 1 ∧
      ∃ bid ∈ T, txn.isCaptured bid = false ∧ txn'.isCaptured bid = true) :
    fs.Evolves (fs.resumed h' j st) image T := by
  have hl' := hl.resume hs ht
  have hmono : ∀ b, txn'.isCaptured b = false → txn.isCaptured b = false := fun b hb => by
    cases hc : txn.isCaptured b with
    | false => rfl
    | true => rw [hcap b hc] at hb; cases hb
  refine ⟨rfl, rfl, rfl, ?_, .live hl', ?_, himage, fun S n hsub hn => ?_⟩
  · simp [Fs.aborted, resumed, hl.journal, Journal.withState]
  · simp [resumed, hl.handle]
  · rw [hl.covers] at hn
    rw [hl'.covers]
    rcases hcost with hsame | ⟨hspent, bid, hbid, hold, hnew⟩
    · have hcard := Finset.card_le_card (monotone_filter_right S fun b _ => hmono b)
      omega
    · have hcard := card_uncaptured_lt (hsub hbid) hold (by simp [hnew]) hmono
      omega

theorem Evolves.refl (hr : fs.Ready) : fs.Evolves fs fs.image ∅ :=
  ⟨rfl, rfl, rfl, rfl, hr, rfl, fun _ => rfl, fun _ _ _ hn => hn⟩

theorem Evolves.trans {image image' : Nat → Option Block}
    (h1 : fs.Evolves fs' image T) (h2 : fs'.Evolves fs'' image' T') :
    fs.Evolves fs'' image' (T ∪ T') where
  sb := h2.sb.trans h1.sb
  groups := h2.groups.trans h1.groups
  device := h2.device.trans h1.device
  aborted := h2.aborted.trans h1.aborted
  ready := h2.ready
  mode := h2.mode.trans h1.mode
  image := h2.image
  credits S n hsub hn := h2.credits S n (union_subset_right hsub)
    (h1.credits S n (union_subset_left hsub) hn)

theorem Evolves.weaken {image : Nat → Option Block}
    (h : fs.Evolves fs' image T) (hsub : T ⊆ T') : fs.Evolves fs' image T' :=
  { h with credits := fun S n hS => h.credits S n (hsub.trans hS) }

theorem Evolves.rest {image : Nat → Option Block} (h1 : fs.Evolves fs' image T)
    (h2 : fs'.Evolves fs'' fs'.image ∅) : fs.Evolves fs'' image T := by
  have himage : fs'.image = image := funext h1.image
  rw [himage] at h2
  exact union_empty T ▸ h1.trans h2

theorem Live.underHandle (hl : fs.Live h j txn) (inert : α)
    (f : Handle → JournalState → Except Fault α × Handle × JournalState) :
    Fs.underHandle inert f fs =
      ((f h j.state).1, fs.resumed (f h j.state).2.1 j (f h j.state).2.2) := by
  simp only [Fs.underHandle, hl.handle, hl.journal]
  rfl

theorem underHandle_plain (inert : α) (f : Handle → JournalState → Except Fault α × Handle × JournalState)
    (hn : fs.handle = none) :
    Fs.underHandle inert f fs = (.ok inert, fs) := by
  simp only [Fs.underHandle, hn]

def Refuses (fs : Fs) (b : Nat) : Prop :=
  (fs.captured b = false ∧ ¬fs.Covers ∅ 1) ∨ fs.image b = none

theorem Covers.mono {S' : Finset Nat} (hc : fs.Covers S n) (hsub : S' ⊆ S) :
    fs.Covers S' n := fun h hh =>
  le_trans (Nat.add_le_add_right (Finset.card_le_card (filter_subset_filter _ hsub)) n)
    (hc h hh)

theorem Covers.admits (hc : fs.Covers S n) (hb : b ∈ S) (hread : fs.image b ≠ none) : ¬fs.Refuses b := by
  rintro (⟨hfresh, hnone⟩ | hnone)
  · refine hnone fun h hh => ?_
    have hpay := hc h hh
    have hmem : b ∈ S.filter fun x => fs.captured x = false := Finset.mem_filter.mpr ⟨hb, hfresh⟩
    have hpos := card_pos.mpr ⟨b, hmem⟩
    simp only [filter_empty, card_empty]
    omega
  · exact hread hnone

section

variable (hl : fs.Live h j txn) (hc : j.state.Captures txn h bid content res txn')

include hl hc

theorem Live.capture (b : Nat) :
    (fs.resumed res.2.1 j res.2.2).image b = if b = bid then
        (content.or ((j.state.uncheckpointed bid).map UncheckpointedImage.image)).or (fs.device bid)
      else fs.image b := by
  rw [(hl.resume hc.serves hc.transfer).image, hl.image, hc.bytes]
  simp only [Journal.withState, hc.retained, resumed]
  split_ifs with hb
  · rw [hb]
  · rfl

theorem Live.capture_evolves {image : Nat → Option Block} (hkeep : (txn.bufferBytes bid).isSome → content.isSome)
    (himage : ∀ b, (fs.resumed res.2.1 j res.2.2).image b = image b) :
    fs.Evolves (fs.resumed res.2.1 j res.2.2) image {bid} ∧
      ∀ e, res.1 = .error e → fs.Evolves (fs.resumed res.2.1 j res.2.2) image ∅ ∧
        (fs.captured bid = false ∧ ¬fs.Covers ∅ 1 ∨ content = none) := by
  have hcap : ∀ b, txn.isCaptured b = true → txn'.isCaptured b = true := fun b hb => by
    rw [Transaction.isCaptured_eq] at hb ⊢
    rw [hc.bytes b]
    split_ifs with heq
    · exact hkeep (heq ▸ hb)
    · exact hb
  have hspent := hc.spent
  refine ⟨hl.evolves hc.serves hc.transfer himage hcap ?_, fun e herr => ?_⟩
  · cases hold : txn.isCaptured bid with
    | true =>
      rw [if_pos hold] at hspent
      exact .inl hspent
    | false =>
      rw [hold, if_neg Bool.false_ne_true] at hspent
      cases hres : res.1 with
      | error e =>
        obtain ⟨-, hsame, -⟩ := hc.refused e hres
        exact .inl (by rw [hsame])
      | ok generation =>
        obtain ⟨c, hget, -⟩ := hc.granted generation hres
        exact .inr ⟨hspent, bid, mem_singleton_self bid, hold,
          by simp [isCaptured, hget]⟩
  · obtain ⟨hfresh, hsame, hcause⟩ := hc.refused e herr
    refine ⟨hl.evolves hc.serves hc.transfer himage hcap (.inl (by rw [hsame])), ?_⟩
    rcases hcause with h0 | hnone
    · refine .inl ⟨by rw [hl.captured, hfresh], ?_⟩
      rw [hl.covers]
      simp [h0]
    · exact .inr hnone

end

theorem plain_evolves (hn : fs.handle = none) (hj : fs.journal = none) {image : Nat → Option Block}
    (himage : ∀ b, fs.image b = image b) (T : Finset Nat) : fs.Evolves fs image T :=
  ⟨rfl, rfl, rfl, rfl, .plain hn hj, rfl, himage, fun _ _ _ hc => hc⟩

theorem getWriteAccess_ends (hr : fs.Ready) (b : Nat) :
    (getWriteAccess g b).Ends fs
      (fun access fs' => fs.Evolves fs' fs.image {b} ∧ fs'.Granted access b)
      fun _ fs' => fs.Evolves fs' fs.image ∅ ∧ fs.Refuses b := by
  cases hr with
  | plain hn hj =>
    simp only [Op.Ends, getWriteAccess, underHandle_plain _ _ hn]
    exact ⟨plain_evolves hn hj (fun _ => rfl) _, .inert rfl hn⟩
  | @live h j txn hl =>
    obtain ⟨txn', hc⟩ := hl.serves.getWrite_captures hl.credits b (fs.device b)
    have himage : ∀ x, (fs.resumed (j.state.getWriteAccess g h b (fs.device b)).2.1 j
        (j.state.getWriteAccess g h b (fs.device b)).2.2).image x = fs.image x := fun x => by
      rw [hl.capture hc x]
      split_ifs with hx
      · rw [hx, hl.image b]
        cases txn.bufferBytes b <;> cases (j.state.uncheckpointed b) <;> cases fs.device b <;> rfl
      · rfl
    obtain ⟨hev, hrefused⟩ := hl.capture_evolves hc (fun hsome => by
      cases hb : txn.bufferBytes b with
      | none => simp [hb] at hsome
      | some v => rfl) himage
    simp only [Op.Ends, getWriteAccess, hl.underHandle]
    cases hres : (j.state.getWriteAccess g h b (fs.device b)).1 with
    | ok generation =>
      obtain ⟨c, hget, hgen⟩ := hc.granted generation hres
      exact ⟨hev, .captured (hl.resume hc.serves hc.transfer) (by rw [hgen]) hget⟩
    | error e =>
      obtain ⟨hev, hcause⟩ := hrefused e hres
      refine ⟨hev, ?_⟩
      rcases hcause with hcredit | hnone
      · exact .inl hcredit
      · exact .inr (by rw [hl.image, Option.or_assoc]; exact hnone)

theorem getCreateAccess_ends (hr : fs.Ready) (b : Nat) :
    (getCreateAccess g b).Ends fs
      (fun access fs' => (∃ v, fs.Evolves fs' (fun x => if x = b ∧ fs.handle.isSome then some v else fs.image
        x) {b}) ∧ fs'.Granted access b)
      fun _ fs' => (∃ v, fs.Evolves fs'
        (fun x => if x = b ∧ fs.handle.isSome then some v else fs.image x) ∅) ∧
          fs.captured b = false ∧ ¬fs.Covers ∅ 1 := by
  cases hr with
  | plain hn hj =>
    simp only [Op.Ends, getCreateAccess, underHandle_plain _ _ hn]
    exact ⟨⟨Bytes.zeros _, plain_evolves hn hj (fun x => by simp [hn]) _⟩, .inert rfl hn⟩
  | @live h j txn hl =>
    obtain ⟨txn', hc⟩ := hl.serves.getCreate_captures hl.credits b
    have himage : ∀ x, (fs.resumed (j.state.getCreateAccess g h b).2.1 j
        (j.state.getCreateAccess g h b).2.2).image x =
          if x = b ∧ fs.handle.isSome then some ((txn.bufferBytes b).getD (Bytes.zeros _))
          else fs.image x := fun x => by
      rw [hl.capture hc x]
      simp [hl.handle]
    obtain ⟨hev, hrefused⟩ := hl.capture_evolves hc (fun _ => rfl) himage
    simp only [Op.Ends, getCreateAccess, hl.underHandle]
    cases hres : (j.state.getCreateAccess g h b).1 with
    | ok generation =>
      obtain ⟨c, hget, hgen⟩ := hc.granted generation hres
      exact ⟨⟨_, hev⟩, .captured (hl.resume hc.serves hc.transfer) (by rw [hgen]) hget⟩
    | error e =>
      obtain ⟨hev, hcause⟩ := hrefused e hres
      exact ⟨⟨_, hev⟩, hcause.resolve_right (by simp)⟩

def overlay (live : Bool) (b : Nat) (f : Block → Block) (image : Nat → Option Block) (x : Nat) :
    Option Block :=
  if x = b ∧ live then (image x).map f else image x

def patched (fs : Fs) (b : Nat) (f : Block → Block) : Nat → Option Block :=
  overlay fs.handle.isSome b f fs.image

theorem Evolves.patch {image : Nat → Option Block} {f : Block → Block}
    (h1 : fs.Evolves fs' image T) (h2 : fs'.Evolves fs'' (fs'.patched b f) T') :
    fs.Evolves fs'' (overlay fs.handle.isSome b f image) (T ∪ T') := by
  have himage : fs'.patched b f = overlay fs.handle.isSome b f image := funext fun x => by
    simp only [patched, overlay, h1.image, h1.mode]
  rw [himage] at h2
  exact h1.trans h2

theorem applyPatch_captured {c : Capture} (f : Block → Block) (hget : txn.metadata.get bid = some c) :
    ∃ txn', txn.applyPatch bid c.generation f = .ok txn' ∧
      ∀ b, txn'.bufferBytes b = if b = bid then some (f c.buffer) else txn.bufferBytes b := by
  unfold applyPatch
  split
  · next hnone => rw [hget] at hnone; cases hnone
  · next capture hsome =>
    rw [hget] at hsome
    cases hsome
    rw [if_pos rfl]
    refine ⟨_, rfl, fun b => ?_⟩
    simp only [Transaction.bufferBytes, SortedMap.get_insert]
    split_ifs <;> rfl

theorem patch_ends (hr : fs.Ready) {access : WriteAccess} (hg : fs.Granted access b) (f : Block → Block) :
    (patch access f).Ends fs (fun _ fs' => fs.Evolves fs' (fs.patched b f) ∅) fun _ _ => False := by
  cases hg with
  | inert ha hn =>
    simp only [patch, ha]
    refine ⟨rfl, rfl, rfl, rfl, hr, rfl, fun x => ?_, fun _ _ _ hc => hc⟩
    simp [patched, overlay, hn]
  | @captured h j txn c hl ha hget =>
    obtain ⟨txn', hpatch, hbytes⟩ := applyPatch_captured f hget
    have ht := Transfer.applyPatch h hpatch
    obtain ⟨hseats, hactive⟩ := hl.serves.seat ht.tid
    have hs : (j.state.setActive txn').Serves txn' h := ⟨hseats, hactive, ht.tid.trans hl.serves.tid⟩
    simp only [Op.Ends, patch, ha, hl.underHandle, JournalState.patch, hl.serves.activeTxn, hpatch,
      Except.map, keepOnError]
    refine hl.evolves hs ht (fun x => ?_) (fun x hx => ?_) (.inl le_rfl)
    swap
    · rw [Transaction.isCaptured_eq] at hx ⊢
      rw [hbytes]
      split_ifs
      · rfl
      · exact hx
    rw [(hl.resume hs ht).image, hbytes, patched, overlay, hl.handle, hl.image]
    simp only [Journal.withState, JournalState.setActive_uncheckpointed, resumed]
    split_ifs with hx hx' hx'
    · have hbuf : txn.bufferBytes x = some c.buffer := by
        rw [hx]
        simp [Transaction.bufferBytes, hget]
      simp [hbuf]
    · simp [hx] at hx'
    · exact absurd hx'.1 hx
    · rfl

structure Forgets (fs fs' : Fs) (start count : Nat) : Prop where
  sb : fs'.sb = fs.sb
  groups : fs'.groups = fs.groups
  device : fs'.device = fs.device
  aborted : fs'.aborted = fs.aborted
  ready : fs'.Ready
  mode : fs'.handle.isSome = fs.handle.isSome
  image : ∀ b, b ∉ List.range' start count → fs'.image b = fs.image b
  credits : ∀ S n, (∀ b ∈ S, b ∉ List.range' start count) → fs.Covers S n → fs'.Covers S n

theorem Evolves.forgets (h : fs.Evolves fs' fs.image ∅) (start count : Nat) :
    fs.Forgets fs' start count :=
  ⟨h.sb, h.groups, h.device, h.aborted, h.ready, h.mode, fun b _ => h.image b,
    fun S n _ => h.credits S n (empty_subset S)⟩

theorem discharge_ends (hr : fs.Ready) (start count : Nat) :
    (discharge start count).Ends fs (fun _ fs' => fs.Forgets fs' start count) fun _ _ => False := by
  cases hr with
  | plain hn hj =>
    simp only [Op.Ends, discharge, underHandle_plain _ _ hn]
    exact (plain_evolves hn hj (fun _ => rfl) ∅).forgets start count
  | @live h j txn hl =>
    have ht := Transfer.forgetAll h (List.range' start count) txn
    have hbytes : ∀ b, b ∉ List.range' start count →
        ((List.range' start count).foldl forgetBlock txn).bufferBytes b =
          txn.bufferBytes b := fun b hb => by
      rw [bufferBytes_eq_join, event_forgetAll, if_neg hb, ← bufferBytes_eq_join]
    obtain ⟨hseats, hactive⟩ := hl.serves.seat ht.tid
    let st : JournalState :=
      { j.state.setActive ((List.range' start count).foldl forgetBlock txn) with
        uncheckpointed := fun b => if b ∈ List.range' start count then none else
          (j.state.setActive ((List.range' start count).foldl forgetBlock txn)).uncheckpointed b }
    have hs : st.Serves _ h := ⟨hseats, hactive, ht.tid.trans hl.serves.tid⟩
    have hl' := hl.resume hs ht
    simp only [Op.Ends, discharge, hl.underHandle, JournalState.discharge, hl.serves.activeTxn, keepOnError]
    refine ⟨rfl, rfl, rfl, ?_, .live hl', ?_, fun b hb => ?_, fun S n hS hc => ?_⟩
    · simp [Fs.aborted, resumed, hl.journal, Journal.withState]
    · simp [resumed, hl.handle]
    · refine (hl'.image b).trans ?_
      rw [hbytes b hb, hl.image]
      simp only [st, Journal.withState, JournalState.setActive_uncheckpointed, resumed, if_neg hb]
    · rw [hl.covers] at hc
      refine hl'.covers.mpr (le_trans (Nat.add_le_add_right (Finset.card_le_card fun b hb => ?_) n) hc)
      obtain ⟨hmem, hfresh⟩ := Finset.mem_filter.mp hb
      rw [Transaction.isCaptured_eq, hbytes b (hS b hmem)] at hfresh
      exact Finset.mem_filter.mpr ⟨hmem, by rw [Transaction.isCaptured_eq]; exact hfresh⟩

theorem Live.rested (hl : fs.Live h j txn) (hrun : st.running = j.state.running)
    (hlock : st.locking = j.state.locking) (hunc : st.uncheckpointed = j.state.uncheckpointed) :
    fs.Evolves (fs.resumed h j st) fs.image ∅ := by
  have hs : st.Serves txn h := by
    obtain ⟨hseats, hactive, htid⟩ := hl.serves
    unfold JournalState.Seats JournalState.active at *
    rw [← hrun, ← hlock] at hseats hactive
    exact ⟨hseats, hactive, htid⟩
  have ht : Transfer txn txn h h := .of_same h rfl rfl rfl
  refine hl.evolves hs ht (fun x => ?_) (fun _ hx => hx) (.inl le_rfl)
  rw [(hl.resume hs ht).image, hl.image]
  simp only [Journal.withState, hunc, resumed]

theorem Live.grown (hl : fs.Live h j txn) (g : JournalGeometry) (extra : Nat) {running : Transaction}
    (hrun : j.state.running = some running) :
    fs.Evolves (fs.resumed (tryGrowReservation g h running extra).2.1 j
      { j.state with running := some (tryGrowReservation g h running extra).2.2 }) fs.image ∅ := by
  obtain rfl : running = txn := by simpa [JournalState.active, hrun] using hl.serves.active
  have hlock : j.state.locking = none := hl.serves.seats.resolve_left (by simp [hrun])
  have ht := Transfer.grow g h running extra
  have hs : JournalState.Serves { j.state with running := some (tryGrowReservation g h running extra).2.2 }
      (tryGrowReservation g h running extra).2.2 (tryGrowReservation g h running extra).2.1 :=
    ⟨.inr hlock, by simp [JournalState.active], (ht.tid.trans hl.serves.tid).trans ht.handle.symm⟩
  have hmeta : (tryGrowReservation g h running extra).2.2.metadata = running.metadata := by
    obtain ⟨-, credits, hgrow⟩ := JournalState.grow_credits g h running extra
    rw [hgrow]
  refine hl.evolves hs ht (fun x => ?_) (fun x hx => ?_) (.inl ?_)
  · rw [(hl.resume hs ht).image, hl.image, Transaction.bufferBytes, hmeta]
    rfl
  · rw [isCaptured, hmeta]
    exact hx
  · unfold tryGrowReservation
    split_ifs
    · simp only [Handle.grantCredits]
      omega
    · exact le_rfl

theorem pinFreedRun_ends (hr : fs.Ready) (start count : Nat) :
    (pinFreedRun start count).Ends fs (fun _ fs' => fs.Evolves fs' fs.image ∅) fun _ _ => False := by
  cases hr with
  | plain hn hj =>
    simp only [Op.Ends, pinFreedRun, underHandle_plain _ _ hn]
    exact .refl (.plain hn hj)
  | @live h j txn hl =>
    simp only [Op.Ends, pinFreedRun, hl.underHandle, JournalState.pinFreedRun, hl.serves.activeTxn]
    split_ifs
    · exact hl.rested rfl rfl rfl
    · exact hl.rested rfl rfl rfl

theorem capturePatch_ends (hr : fs.Ready) (b : Nat) (f : Block → Block) :
    (capturePatch g b f).Ends fs
      (fun _ fs' => fs.Evolves fs' (fs.patched b f) {b})
      fun _ fs' => fs.Evolves fs' fs.image ∅ ∧ fs.Refuses b := by
  refine (getWriteAccess_ends hr b).bind fun access fs1 h1 => ?_
  obtain ⟨hev, hgrant⟩ := h1
  exact (patch_ends hev.ready hgrant f).mono (fun _ fs2 h2 => (hev.patch h2).weaken (by simp))
    fun _ _ hf => hf.elim

theorem tryReserveNext_ends (hr : fs.Ready) (need : Nat) :
    (tryReserveNext g need).Ends fs (fun _ fs' => fs.Evolves fs' fs.image ∅) fun _ _ => False := by
  cases hr with
  | plain hn hj =>
    simp only [Op.Ends, tryReserveNext, underHandle_plain _ _ hn]
    exact .refl (.plain hn hj)
  | @live h j txn hl =>
    have hev : (∃ outcome, (j.state.tryReserveNext g h need).1 = .ok outcome) ∧
        fs.Evolves (fs.resumed (j.state.tryReserveNext g h need).2.1 j
          (j.state.tryReserveNext g h need).2.2) fs.image ∅ := by
      unfold JournalState.tryReserveNext
      split_ifs with hneed hlocked
      · exact ⟨⟨_, rfl⟩, hl.rested rfl rfl rfl⟩
      · exact ⟨⟨_, rfl⟩, hl.rested rfl rfl rfl⟩
      · cases hrun : j.state.running with
        | none =>
          have hactive := hl.serves.active
          rw [JournalState.active, hrun, Option.none_or] at hactive
          exact absurd (by simp [hactive, hl.serves.tid]) hlocked
        | some running => exact ⟨⟨_, rfl⟩, hl.grown g _ hrun⟩
    obtain ⟨⟨outcome, hok⟩, hev⟩ := hev
    simp only [Op.Ends, tryReserveNext, hl.underHandle, hok]
    exact hev

theorem requestCommitOfRunning_ends (hr : fs.Ready) {E : Fault → Fs → Prop} :
    requestCommitOfRunning.Ends fs (fun _ fs' => fs.Evolves fs' fs.image ∅) E := by
  cases hr with
  | plain hn hj =>
    refine .modify ?_
    simp only [hj, Option.map_none]
    have hsame : { fs with journal := none } = fs := by rw [← hj]
    rw [hsame]
    exact .refl (.plain hn hj)
  | @live h j txn hl =>
    refine .modify ?_
    simp only [hl.journal, Option.map_some]
    have hsame : { fs with journal := some (j.withState j.state.requestCommitOfRunning) } =
        fs.resumed h j j.state.requestCommitOfRunning := by
      simp only [resumed, hl.handle]
    rw [hsame]
    have hcases : j.state.requestCommitOfRunning = j.state ∨
        ∃ r, j.state.requestCommitOfRunning = { j.state with commitRequest := r } := by
      unfold JournalState.requestCommitOfRunning JournalState.requestCommitFor
      cases j.state.committableRunning with
      | none => exact .inl rfl
      | some txn =>
        simp only
        split_ifs
        · exact .inl rfl
        · exact .inr ⟨_, rfl⟩
    rcases hcases with hst | ⟨r, hst⟩
    · rw [hst]
      exact hl.rested rfl rfl rfl
    · rw [hst]
      exact hl.rested rfl rfl rfl

end Fs

end Ext4
