import Ext4.Journal.Accounting

namespace Ext4

open JournalState Transaction HandleTask

variable {g : JournalGeometry} {h h' : Handle} {bid generation : Nat} {strained : Bool}

namespace Transaction

variable {txn txn' txn'' : Transaction}

def names (txn : Transaction) (bid generation : Nat) : Bool :=
  (txn.metadata.get bid).any fun c => c.generation = generation

def Numbered (txn : Transaction) : Prop :=
  ∀ b c, txn.metadata.get b = some c → c.generation < txn.nextCaptureGeneration

structure Succeeds (txn txn' : Transaction) : Prop where
  tid : txn'.tid = txn.tid
  next : txn.nextCaptureGeneration ≤ txn'.nextCaptureGeneration
  captures : ∀ b c, txn'.metadata.get b = some c → txn.names b c.generation = true ∨
    txn.nextCaptureGeneration ≤ c.generation ∧ c.generation < txn'.nextCaptureGeneration

theorem names_iff : txn.names bid generation = true ↔ ∃ c, txn.metadata.get bid = some c ∧ c.generation = generation := by
  simp [names, Option.any_eq_true]

theorem Succeeds.of_metadata (htid : txn'.tid = txn.tid) (hnext : txn'.nextCaptureGeneration = txn.nextCaptureGeneration)
    (hmeta : txn'.metadata = txn.metadata) : txn.Succeeds txn' where
  tid := htid
  next := hnext.ge
  captures _ c hc := .inl (names_iff.mpr ⟨c, hmeta ▸ hc, rfl⟩)

theorem Succeeds.trans (h1 : txn.Succeeds txn') (h2 : txn'.Succeeds txn'') : txn.Succeeds txn'' where
  tid := h2.tid.trans h1.tid
  next := h1.next.trans h2.next
  captures b c hc := by
    have hnext1 := h1.next
    have hnext2 := h2.next
    rcases h2.captures b c hc with hnames | hfresh
    · obtain ⟨c', hc', hgen⟩ := names_iff.mp hnames
      have hold := h1.captures b c' hc'
      rw [hgen] at hold
      exact hold.imp_right fun hrange => ⟨hrange.1, by omega⟩
    · exact .inr ⟨by omega, hfresh.2⟩

theorem Succeeds.numbered (hs : txn.Succeeds txn') (hn : txn.Numbered) : txn'.Numbered := by
  intro b c hc
  rcases hs.captures b c hc with hnames | hfresh
  · obtain ⟨c', hc', hgen⟩ := names_iff.mp hnames
    have hlt := hn b c' hc'
    have hnext := hs.next
    omega
  · exact hfresh.2

theorem Succeeds.names (hs : txn.Succeeds txn') (hlt : generation < txn.nextCaptureGeneration)
    (hn : txn'.names bid generation = true) : txn.names bid generation = true := by
  obtain ⟨c, hc, rfl⟩ := names_iff.mp hn
  exact (hs.captures bid c hc).resolve_right fun hfresh => by omega

theorem succeeds_capture (txn : Transaction) (bytes : Block) (h : txn.revoked.get bid = none) :
    txn.Succeeds (txn.insertCapture bid bytes h) where
  tid := rfl
  next := Nat.le_succ _
  captures b c hc := by
    simp only [insertCapture, SortedMap.get_insert] at hc ⊢
    split_ifs at hc
    · cases hc
      exact .inr ⟨le_rfl, Nat.lt_succ_self _⟩
    · exact .inl (names_iff.mpr ⟨c, hc, rfl⟩)

theorem succeeds_applyPatch {f : Block → Block} (hp : txn.applyPatch bid generation f = .ok txn') :
    txn.Succeeds txn' ∧ txn.names bid generation = true := by
  unfold applyPatch at hp
  split at hp
  · cases hp
  · next capture hget =>
    split_ifs at hp with hgen
    cases hp
    refine ⟨⟨rfl, le_rfl, fun b c hc => .inl (names_iff.mpr ?_)⟩, names_iff.mpr ⟨capture, hget, hgen⟩⟩
    rw [SortedMap.get_insert] at hc
    split_ifs at hc with hb
    · cases hc
      exact ⟨capture, hb ▸ hget, rfl⟩
    · exact ⟨c, hc, rfl⟩

theorem applyPatch_stale (f : Block → Block) (hn : txn.names bid generation = false) :
    ∃ msg, txn.applyPatch bid generation f = .error (.error .eio msg) := by
  unfold applyPatch
  split
  · exact ⟨_, rfl⟩
  · next capture hget =>
    rw [if_neg fun hgen => by simp [names, hget, hgen] at hn]
    exact ⟨_, rfl⟩

theorem succeeds_forget (bids : List Nat) (txn : Transaction) : txn.Succeeds (bids.foldl forgetBlock txn) := by
  induction bids generalizing txn with
  | nil => exact .of_metadata rfl rfl rfl
  | cons bid bids ih =>
    have hone : txn.Succeeds (txn.forgetBlock bid) := by
      refine ⟨rfl, le_rfl, fun b c hc => .inl (names_iff.mpr ?_)⟩
      simp only [forgetBlock, SortedMap.get_erase] at hc
      split_ifs at hc
      exact ⟨c, hc, rfl⟩
    exact hone.trans (ih (txn.forgetBlock bid))

end Transaction

theorem TxnEdit.succeeds {txn txn' : Transaction} (he : TxnEdit g h txn strained h' txn') :
    txn.Succeeds txn' := by
  cases he with
  | same => exact .of_metadata rfl rfl rfl
  | grow extra =>
    obtain ⟨-, credits, hgrow⟩ := grow_credits g h txn extra
    rw [hgrow]
    exact .of_metadata rfl rfl rfl
  | unrevoke bid => exact .of_metadata rfl rfl rfl
  | @capture bid captured bytes fresh inserted =>
    obtain ⟨-, credits, hcharge⟩ := charge_credits g h captured
    have hclear : txn.Succeeds (txn.unrevoke bid) := .of_metadata rfl rfl rfl
    have hcapture := hclear.trans (succeeds_capture _ bytes (txn.unrevoke_revoked bid))
    rw [hcharge]
    exact (inserted ▸ hcapture).trans (.of_metadata rfl rfl rfl)
  | patch applied => exact (succeeds_applyPatch applied).1
  | forget bids => exact succeeds_forget bids txn
  | register ino len => exact .of_metadata rfl rfl rfl

theorem Turn.succeeds {s : HandleSys} {st' : JournalState} {txn' : Transaction}
    (ht : Turn g s strained st') (htxn' : st'.active = some txn') : ∃ txn, s.state.Base txn ∧ txn.Succeeds txn' := by
  cases ht with
  | kept active => exact ⟨txn', .inl (active ▸ htxn'), .of_metadata rfl rfl rfl⟩
  | vacated vacant =>
    rw [vacant] at htxn'
    cases htxn'
  | edited held joined edit active =>
    cases active.symm.trans htxn'
    exact ⟨_, .inl held, edit.succeeds⟩
  | closed credits held active =>
    cases active.symm.trans htxn'
    exact ⟨_, .inl held, .of_metadata rfl rfl rfl⟩
  | seated seat active =>
    cases active.symm.trans htxn'
    exact ⟨_, seat, .of_metadata rfl rfl rfl⟩
  | opened seat room active =>
    cases active.symm.trans htxn'
    exact ⟨_, seat, .of_metadata rfl rfl rfl⟩

namespace JournalState

variable {st : JournalState}

def names (st : JournalState) (tid : Tid) (bid generation : Nat) : Bool :=
  (st.activeTxn tid).any fun txn => txn.names bid generation

theorem patch_names {st' : JournalState} {tid : Tid} {f : Block → Block}
    (hp : st.patch tid bid generation f = .ok st') : st.names tid bid generation = true := by
  cases ha : st.activeTxn tid with
  | none => simp [patch, ha] at hp
  | some txn =>
    cases happlied : txn.applyPatch bid generation f with
    | error e => simp [patch, ha, happlied, Except.map] at hp
    | ok patched => simpa [names, ha] using (succeeds_applyPatch happlied).2

theorem patch_stale {tid : Tid} (f : Block → Block) (hn : st.names tid bid generation = false) :
    ∃ msg, st.patch tid bid generation f = .error (.error .eio msg) := by
  cases ha : st.activeTxn tid with
  | none => exact ⟨_, by rw [patch, ha]; rfl⟩
  | some txn =>
    have hstale : txn.names bid generation = false := by simpa [names, ha] using hn
    obtain ⟨msg, happlied⟩ := applyPatch_stale f hstale
    exact ⟨msg, by simp [patch, ha, happlied, Except.map]⟩

end JournalState

namespace HandleSys

variable {s : HandleSys} {tid : Tid} {early late : List HandleEvent}

structure Ordered (s : HandleSys) : Prop where
  seats : s.state.Seats
  numbered : ∀ txn, s.state.active = some txn → txn.Numbered

theorem Ordered.step (hs : s.Ordered) (g : JournalGeometry) (ev : HandleEvent) : (s.step g ev).Ordered where
  seats := (turn g hs.seats ev).1
  numbered txn' htxn' := by
    obtain ⟨txn, hbase, hsucc⟩ := (turn g hs.seats ev).2.succeeds htxn'
    refine hsucc.numbered ?_
    rcases hbase with hactive | ⟨-, rfl⟩
    · exact hs.numbered txn hactive
    · exact fun b c hc => by cases hc

theorem Ordered.run (hs : s.Ordered) (g : JournalGeometry) (evs : List HandleEvent) : (s.run g evs).Ordered := by
  induction evs generalizing s with
  | nil => exact hs
  | cons ev evs ih => exact ih (hs.step g ev)

-- tids are 32-bit counters, so only a wrap over the whole range takes one twice
def Unreused (g : JournalGeometry) (tid : Tid) : HandleSys → List HandleEvent → Prop
  | _, [] => True
  | s, ev :: evs => (s.state.active.isSome ∨ s.state.nextTid ≠ tid) ∧ Unreused g tid (s.step g ev) evs

theorem unreused_append :
    s.Unreused g tid (early ++ late) ↔ s.Unreused g tid early ∧ (s.run g early).Unreused g tid late := by
  induction early generalizing s with
  | nil => simp [Unreused, run]
  | cons ev early ih => exact (and_congr_right fun _ => ih).trans and_assoc.symm

theorem run_succeeds (hs : s.Ordered) {evs : List HandleEvent} (hu : s.Unreused g tid evs) {txn' : Transaction}
    (hactive : (s.run g evs).state.active = some txn') (htid : txn'.tid = tid) :
    ∃ txn, s.state.active = some txn ∧ txn.Succeeds txn' := by
  induction evs generalizing s with
  | nil => exact ⟨txn', hactive, .of_metadata rfl rfl rfl⟩
  | cons ev evs ih =>
    obtain ⟨mid, hmid, hlate⟩ := ih (hs.step g ev) hu.2 hactive
    obtain ⟨txn, hbase, hsucc⟩ := (turn g hs.seats ev).2.succeeds hmid
    rcases hbase with hold | ⟨hnone, rfl⟩
    · exact ⟨txn, hold, hsucc.trans hlate⟩
    · have hsame : s.state.nextTid = tid := (hsucc.trans hlate).tid.symm.trans htid
      rcases hu.1 with hsome | hne
      · simp [hnone] at hsome
      · exact absurd hsame hne

inductive Mints (g : JournalGeometry) (st : JournalState) (h : Handle) (bid generation : Nat) : HandleCall → Prop
  | write (device : Option Block) (granted : (st.getWriteAccess g h bid device).1 = .ok generation) :
      Mints g st h bid generation (.getWrite bid device)
  | create (granted : (st.getCreateAccess g h bid).1 = .ok generation) : Mints g st h bid generation (.getCreate bid)

theorem settle_names {st : JournalState} {txn captured : Transaction} {fresh : Bool} {granted : Nat}
    (hs : st.Serves txn h) (htid : captured.tid = txn.tid)
    (hc : ∃ c, captured.metadata.get bid = some c ∧ c.generation = granted)
    (hok : (settleCapture g h st fresh granted captured).1 = .ok generation) :
    (settleCapture g h st fresh granted captured).2.2.names h.tid bid generation = true := by
  have hset : ∀ txn' : Transaction, txn'.tid = txn.tid → txn'.names bid granted = true →
      (st.setActive txn').names h.tid bid granted = true := by
    intro txn' htid' hn
    obtain ⟨hseats, hactive⟩ := hs.seat htid'
    have hserves : (st.setActive txn').Serves txn' h := ⟨hseats, hactive, htid'.trans hs.tid⟩
    simp [JournalState.names, hserves.activeTxn, hn]
  have hn : captured.names bid granted = true := names_iff.mpr hc
  unfold settleCapture at hok ⊢
  cases fresh with
  | false =>
    cases hok
    exact hset captured htid hn
  | true =>
    obtain ⟨-, credits, hcharge⟩ := charge_credits g h captured
    cases hres : (chargeFreshCapture g h captured).1 with
    | error e => simp [hres, Except.map] at hok
    | ok u =>
      simp only [if_true, hres, Except.map, Except.ok.injEq] at hok ⊢
      subst hok
      rw [hcharge]
      exact hset _ htid hn

theorem Mints.names {c : HandleCall} (hs : s.state.Seats) (ht : s.task k = .held h) (hm : Mints g s.state h bid generation c) :
    (s.step g (.task k c)).state.names h.tid bid generation = true := by
  rw [step_task, ht]
  rcases serves_or_none hs h with ⟨txn, hserves⟩ | hnone
  · cases hm with
    | write device granted =>
      simp only [call, keeping, Journal.withState]
      simp only [getWriteAccess, hserves.activeTxn] at granted ⊢
      have htid := (Transfer.captureWrite h txn bid (s.state.captureSeed h.tid bid) device).tid
      cases hc : txn.captureWrite bid (s.state.captureSeed h.tid bid) device with
      | mk res captured =>
        rw [hc] at granted htid
        cases res with
        | error e => cases granted
        | ok minted => exact settle_names hserves htid (metadata_captureWrite hc) granted
    | create granted =>
      simp only [call, keeping, Journal.withState]
      simp only [getCreateAccess, hserves.activeTxn] at granted ⊢
      exact settle_names hserves (Transfer.captureCreate h txn bid).tid (txn.metadata_captureCreate bid) granted
  · cases hm with
    | write device granted => simp [getWriteAccess, hnone] at granted
    | create granted => simp [getCreateAccess, hnone] at granted

theorem run_append (s : HandleSys) (early late : List HandleEvent) :
    s.run g (early ++ late) = (s.run g early).run g late := List.foldl_append

theorem Ordered.names_iff (hs : s.Ordered) : s.state.names tid bid generation = true ↔
    ∃ txn, s.state.active = some txn ∧ txn.tid = tid ∧ txn.names bid generation = true := by
  rw [JournalState.names, Option.any_eq_true]
  refine ⟨fun ⟨txn, ha, hn⟩ => ⟨txn, (hs.seats.activeTxn ha).1, (hs.seats.activeTxn ha).2, hn⟩, ?_⟩
  rintro ⟨txn, hactive, htid, hn⟩
  have hserves : s.state.Serves txn (journalStart tid 0) := ⟨hs.seats, hactive, htid⟩
  exact ⟨txn, hserves.activeTxn, hn⟩

theorem names_before (hs : s.Ordered) (hnames : s.state.names tid bid generation = true)
    (hu : s.Unreused g tid (early ++ late)) (hlate : (s.run g (early ++ late)).state.names tid bid generation = true) :
    (s.run g early).state.names tid bid generation = true := by
  obtain ⟨hearly, hrest⟩ := unreused_append.mp hu
  rw [run_append, ((hs.run g early).run g late).names_iff] at hlate
  obtain ⟨txn2, hactive2, htid2, hn2⟩ := hlate
  obtain ⟨txn1, hactive1, hsucc2⟩ := run_succeeds (hs.run g early) hrest hactive2 htid2
  have htid1 : txn1.tid = tid := hsucc2.tid.symm.trans htid2
  obtain ⟨txn0, hactive0, hsucc1⟩ := run_succeeds hs hearly hactive1 htid1
  obtain ⟨txn, hactive, -, hn⟩ := hs.names_iff.mp hnames
  obtain rfl : txn = txn0 := Option.some.inj (hactive.symm.trans hactive0)
  obtain ⟨c, hc, hgen⟩ := names_iff.mp hn
  have hlt := hs.numbered txn hactive bid c hc
  have hnext := hsucc1.next
  exact (hs.run g early).names_iff.mpr ⟨txn1, hactive1, htid1, hsucc2.names (by omega) hn2⟩

theorem stale_credentials_have_no_effect (g : JournalGeometry) (sequence : Tid) (start : Option Nat) (errno : Nat)
    (before after : List HandleEvent) (k : Nat) (h : Handle) (c : HandleCall) (bid generation : Nat)
    (ht : ((mount (Journal.new g sequence start errno)).run g before).task k = .held h)
    (hm : Mints g ((mount (Journal.new g sequence start errno)).run g before).state h bid generation c)
    (hu : (((mount (Journal.new g sequence start errno)).run g before).step g (.task k c)).Unreused g h.tid after)
    (f : Block → Block) :
    let minted := ((mount (Journal.new g sequence start errno)).run g before).step g (.task k c)
    let st := (minted.run g after).state
    (∀ st', st.patch h.tid bid generation f = .ok st' →
      (∀ early late, after = early ++ late → (minted.run g early).state.names h.tid bid generation = true) ∧
      ∃ old new v, st.Edits st' old new st.uncheckpointed ∧ old.event bid = some (some v) ∧
        ∀ b, new.event b = if b = bid then some (some (f v)) else old.event b) ∧
    ∀ early late, after = early ++ late → (minted.run g early).state.names h.tid bid generation = false →
      ∃ msg, st.patch h.tid bid generation f = .error (.error .eio msg) := by
  intro minted st
  have hmount : (mount (Journal.new g sequence start errno)).Ordered := ⟨.inl rfl, fun txn ha => by cases ha⟩
  have hbefore := hmount.run g before
  have hminted : minted.Ordered := hbefore.step g (.task k c)
  have hnames : minted.state.names h.tid bid generation = true := hm.names hbefore.seats ht
  refine ⟨fun st' hp => ⟨fun early late hsplit => ?_, (hminted.run g after).seats.patch hp⟩, fun early late hsplit hgone => ?_⟩
  · subst hsplit
    exact names_before hminted hnames hu (JournalState.patch_names hp)
  · refine JournalState.patch_stale f ?_
    by_contra hlive
    rw [Bool.not_eq_false] at hlive
    subst hsplit
    have hearly := names_before hminted hnames hu hlive
    rw [hgone] at hearly
    cases hearly

def recaptured : List HandleEvent := [.task 1 (.discharge 20 1), .task 1 (.getCreate 20)]

theorem stale_credentials_have_no_effect_recaptured :
    let s := (mount (Journal.new .small (Tid.ofNat 1) none 0)).run .small (begin 1 4)
    let st := ((s.step .small (.task 1 (.getCreate 20))).run .small recaptured).state
    st.names (Tid.ofNat 1) 20 1 = true ∧
    ∃ msg, st.patch (Tid.ofNat 1) 20 0 (fun _ => Bytes.zeros _) = .error (.error .eio msg) := by
  refine ⟨by decide +kernel, ?_⟩
  refine (stale_credentials_have_no_effect .small (Tid.ofNat 1) none 0 (begin 1 4) recaptured 1
    (journalStart (Tid.ofNat 1) 4) (.getCreate 20) 20 0 rfl (.create rfl) ?_ _).2 [.task 1 (.discharge 20 1)] _ rfl ?_
  · exact ⟨.inl (by decide +kernel), .inl (by decide +kernel), trivial⟩
  · decide +kernel

end HandleSys

end Ext4
