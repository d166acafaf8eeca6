import Ext4.Journal.Accounting

namespace Ext4

open Transaction Journal

namespace Transaction

variable {g : JournalGeometry} {txn txn' : Transaction} {extra : Nat}

def load (g : JournalGeometry) (txn : Transaction) : Nat :=
  txn.reservedMetadataBlocks 0 + txn.nrRevokeBlocks g.tagLayout

def Fits (g : JournalGeometry) (txn : Transaction) : Prop := txn.load g ≤ Journal.maxCredits g

instance (g : JournalGeometry) (txn : Transaction) : Decidable (txn.Fits g) :=
  inferInstanceAs (Decidable (_ ≤ _))

theorem nrRevokeBlocks_mono (layout : TagLayout) (h : txn'.revoked.entries.length ≤ txn.revoked.entries.length) :
    txn'.nrRevokeBlocks layout ≤ txn.nrRevokeBlocks layout :=
  Nat.div_le_div_right (by omega)

theorem nrRevokeBlocks_unrevoke (txn : Transaction) (layout : TagLayout) (bid : Nat) :
    (txn.unrevoke bid).nrRevokeBlocks layout ≤ txn.nrRevokeBlocks layout :=
  nrRevokeBlocks_mono layout (txn.revoked.length_erase_le bid)

section

variable (g : JournalGeometry) (txn : Transaction) (bid : Nat)

theorem load_unrevoke :
    (txn.unrevoke bid).load g ≤ txn.load g := by
  have := txn.nrRevokeBlocks_unrevoke g.tagLayout bid
  simp only [load, reservedMetadataBlocks, nrMetadataBlocks] at this ⊢
  exact Nat.add_le_add_left this _

theorem load_recapture (v : Block) :
    ((txn.unrevoke bid).insertCapture bid v (txn.unrevoke_revoked bid)).load g ≤ txn.load g + 1 := by
  have hrev := txn.nrRevokeBlocks_unrevoke g.tagLayout bid
  have hlen := txn.metadata.length_insert bid ⟨(txn.unrevoke bid).nextCaptureGeneration, v⟩
  have hle : (if (txn.metadata.get bid).isSome then 0 else 1) ≤ 1 := by split <;> omega
  simp only [load, reservedMetadataBlocks, nrMetadataBlocks, insertCapture] at hrev ⊢
  simp only [unrevoke, nrRevokeBlocks] at hrev hlen ⊢
  omega

end

theorem load_applyPatch {bid generation : Nat} {f : Block → Block}
    (h : txn.applyPatch bid generation f = .ok txn') : txn'.load g = txn.load g := by
  unfold applyPatch at h
  split at h
  · cases h
  · next capture hget =>
    split_ifs at h
    cases h
    have hlen := txn.metadata.length_insert bid { capture with buffer := f capture.buffer }
    simp only [hget, Option.isSome_some, if_true, add_zero] at hlen
    simp only [load, reservedMetadataBlocks, nrMetadataBlocks, nrRevokeBlocks, hlen]

theorem hasCapacity_iff :
    hasCapacity g txn extra = true ↔ txn.load g + extra ≤ maxCredits g := by
  unfold hasCapacity load reservedMetadataBlocks
  rw [decide_eq_true_iff]
  omega

theorem fits_new (tid : Tid) : (new tid).Fits g := by
  have hpos := g.tagLayout.revokeEntriesPerBlock_pos
  have hzero : (0 + g.tagLayout.revokeEntriesPerBlock - 1) / g.tagLayout.revokeEntriesPerBlock = 0 :=
    Nat.div_eq_of_lt (by omega)
  simp only [Fits, load, reservedMetadataBlocks, nrMetadataBlocks, nrRevokeBlocks, new,
    SortedMap.empty, List.length_nil, hzero]
  exact zero_le

theorem footprint_le_ring (h : txn.Fits g) : txn.record.footprint g ≤ g.ring := by
  have htpos := g.tagLayout.tagsPerDescriptor_pos
  have hring : 0 < g.ring := by
    have := g.first_lt
    rw [JournalGeometry.ring]
    omega
  rw [TxnRecord.footprint, List.chunks_length htpos, List.chunks_length g.tagLayout.revokeEntriesPerBlock_pos]
  have hcap : txn.record.captures.length = txn.nrMetadataBlocks := by
    simp [record, metadataBlocks, nrMetadataBlocks]
  have hrev : txn.record.revokes.length = txn.revoked.entries.length := by
    simp [record, revokedBlocks, SortedMap.keys]
  rw [hcap, hrev, ← nrRevokeBlocks]
  simp only [Fits, load, reservedMetadataBlocks, maxCredits] at h
  generalize g.tagLayout.tagsPerDescriptor = t at *
  generalize txn.nrMetadataBlocks = n at *
  generalize txn.nrRevokeBlocks g.tagLayout = r at *
  generalize g.ring = u at *
  have hmul : (n + r) * (t + 1) ≤ t * (u - 2) :=
    (Nat.mul_le_mul_right (t + 1) (by omega : n + r ≤ _)).trans (Nat.div_mul_le_self _ _)
  have hdescriptors : (n + t - 1) / t * t ≤ n + t - 1 := Nat.div_mul_le_self _ _
  generalize (n + t - 1) / t = q at *
  by_contra hover
  have hu : t * u ≤ t * (r + n + q) := Nat.mul_le_mul_left t (by omega)
  rw [Nat.mul_sub, Nat.add_mul, Nat.mul_add n, Nat.mul_add r] at hmul
  rw [Nat.mul_add, Nat.mul_add, mul_comm t q, mul_comm t n, mul_comm t r] at hu
  rcases Nat.lt_or_ge u 2 with hsmall | hlarge
  · obtain rfl : u = 1 := by omega
    have hq : q * t < 1 * t := by omega
    have := Nat.lt_of_mul_lt_mul_right hq
    omega
  · have h2 : t * 2 ≤ t * u := Nat.mul_le_mul_left t hlarge
    omega

theorem fits_grow (h : Handle) (hf : txn.Fits g) (extra : Nat) :
    (tryGrowReservation g h txn extra).2.2.Fits g := by
  unfold tryGrowReservation
  split_ifs with hroom
  · rw [hasCapacity_iff] at hroom
    simp only [Fits, load, reservedMetadataBlocks, nrMetadataBlocks, nrRevokeBlocks] at hroom ⊢
    omega
  · exact hf

theorem fits_spend (hpos : 0 < txn.outstandingCredits) (hload : txn.load g ≤ maxCredits g + 1) :
    txn.consumeReservedCredit.Fits g := by
  simp only [Fits, load, reservedMetadataBlocks, nrMetadataBlocks, nrRevokeBlocks, consumeReservedCredit] at hload ⊢
  omega

theorem fits_grow_spend (h : Handle) (hextra : 0 < extra)
    (hgrant : (tryGrowReservation g h txn extra).1 = .granted) :
    (tryGrowReservation g h txn extra).2.2.consumeReservedCredit.Fits g := by
  unfold tryGrowReservation at hgrant ⊢
  split_ifs at hgrant ⊢ with hroom
  rw [hasCapacity_iff] at hroom
  refine fits_spend (by simp only; omega) ?_
  simp only [load, reservedMetadataBlocks, nrMetadataBlocks, nrRevokeBlocks] at hroom ⊢
  omega

end Transaction

theorem fits_charge {g : JournalGeometry} {h : Handle} {txn : Transaction}
    (hle : h.remaining ≤ txn.outstandingCredits) (hload : txn.load g ≤ maxCredits g + 1)
    (hfull : isFull (chargeFreshCapture g h txn).1 = false) :
    (chargeFreshCapture g h txn).2.2.Fits g := by
  unfold chargeFreshCapture at hfull ⊢
  split_ifs at hfull ⊢ with h0
  · cases hb : tryGrowReservation g h txn extendBatchBlocks with
    | mk outcome rest =>
      rw [hb] at hfull
      cases outcome with
      | granted =>
        have hspend := fits_grow_spend h (show 0 < extendBatchBlocks by decide)
          (congrArg Prod.fst hb)
        rw [hb] at hspend
        exact hspend
      | needsRestart =>
        cases h1 : tryGrowReservation g h txn 1 with
        | mk outcome rest =>
          rw [h1] at hfull
          cases outcome with
          | granted =>
            have hspend := fits_grow_spend h Nat.one_pos (congrArg Prod.fst h1)
            rw [h1] at hspend
            exact hspend
          | needsRestart => simp [isFull] at hfull
  · exact fits_spend (by omega) hload

theorem TxnEdit.fits {g : JournalGeometry} {h h' : Handle} {txn txn' : Transaction} {strained : Bool}
    (he : TxnEdit g h txn strained h' txn') (hle : h.remaining ≤ txn.outstandingCredits) (hf : txn.Fits g)
    (hs : strained = false) : txn'.Fits g := by
  cases he with
  | same => exact hf
  | grow extra => exact fits_grow h hf extra
  | unrevoke bid => exact (load_unrevoke g txn bid).trans hf
  | @capture bid _ bytes fresh inserted =>
    subst inserted
    have hload := load_recapture g txn bid bytes
    refine fits_charge ?_ (hload.trans (Nat.add_le_add_right hf 1)) hs
    exact hle
  | patch applied => exact (load_applyPatch applied).trans_le hf
  | forget bids => cases hs
  | register ino len => exact hf

namespace JournalState

variable {g : JournalGeometry} {st : JournalState} {txn txn' : Transaction} {h : Handle} {st' : JournalState}

def Fits (g : JournalGeometry) (st : JournalState) : Prop :=
  ∀ txn, st.active = some txn → txn.Fits g

theorem Base.fits {base : Transaction} (hb : st.Base base) (hf : st.Fits g) : base.Fits g := by
  rcases hb with hactive | ⟨-, rfl⟩
  · exact hf base hactive
  · exact fits_new st.nextTid

theorem Drains.footprint (hd : st.Drains (some txn) st') (hf : st.Fits g) :
    txn.record.footprint g ≤ g.ring := by
  cases hd with
  | taken held hactive _ hsame _ =>
    rw [hsame txn rfl]
    exact footprint_le_ring (hf held hactive)
  | kept hnone => cases hnone

end JournalState

theorem Turn.fits {g : JournalGeometry} {s : HandleSys} {st' : JournalState} {strained : Bool}
    (ht : Turn g s strained st') (ha : s.Accounted) (hf : s.state.Fits g) (hs : strained = false) : st'.Fits g := by
  intro txn' htxn'
  cases ht with
  | kept active => exact hf txn' (active ▸ htxn')
  | vacated vacant =>
    rw [vacant] at htxn'
    cases htxn'
  | edited held joined edit active =>
    rw [active] at htxn'
    cases htxn'
    obtain ⟨txn, hserves, hle, -⟩ := ha.serves joined
    cases held.symm.trans hserves.active
    exact edit.fits hle (hf _ held) hs
  | closed credits held active =>
    rw [active] at htxn'
    cases htxn'
    have hfits : load g _ ≤ _ := hf _ held
    simp only [Transaction.Fits, load, reservedMetadataBlocks, nrMetadataBlocks, nrRevokeBlocks] at hfits ⊢
    omega
  | seated seat active =>
    rw [active] at htxn'
    cases htxn'
    exact seat.fits hf
  | opened seat room active =>
    rw [active] at htxn'
    cases htxn'
    rw [hasCapacity_iff] at room
    simp only [Transaction.Fits, load, reservedMetadataBlocks, nrMetadataBlocks, nrRevokeBlocks] at room ⊢
    omega

def HandleTask.overruns (g : JournalGeometry) (j : Journal) : HandleTask → HandleCall → Bool
  | .held h, .getWrite bid device => isFull (j.state.getWriteAccess g h bid device).1
  | .held h, .getCreate bid => isFull (j.state.getCreateAccess g h bid).1
  | .held h, .discharge start count =>
    !(orKeep (j.state.discharge h.tid start count) j.state).active.all fun txn => txn.Fits g
  | t, c => t.refused g j c

namespace HandleSys

variable {g : JournalGeometry} {s : HandleSys} {ev : HandleEvent}

def overruns (g : JournalGeometry) (s : HandleSys) : HandleEvent → Bool
  | .task k c => (s.task k).overruns g s.journal c
  | _ => false

def Bounded (g : JournalGeometry) : HandleSys → List HandleEvent → Prop
  | _, [] => True
  | s, ev :: evs => s.overruns g ev = false ∧ Bounded g (s.step g ev) evs

instance decidableBounded (g : JournalGeometry) :
    ∀ (s : HandleSys) (evs : List HandleEvent), Decidable (s.Bounded g evs)
  | _, [] => .isTrue trivial
  | s, ev :: evs =>
    have := decidableBounded g (s.step g ev) evs
    inferInstanceAs (Decidable (_ ∧ _))

theorem refused_of_overruns (h : s.overruns g ev = false) :
    s.refused g ev = false := by
  cases ev with
  | task k c =>
    simp only [overruns, refused] at h ⊢
    cases hk : s.task k with
    | rejoining hd credits =>
      rw [hk] at h
      cases c with
      | resume servicer => exact h
      | _ => rfl
    | _ => rfl
  | _ => rfl

theorem strains_of_overruns (h : s.overruns g ev = false) :
    s.strains g ev = false ∨ (s.step g ev).state.Fits g := by
  cases ev with
  | task k c =>
    rw [step_task]
    simp only [overruns, strains] at h ⊢
    cases hk : s.task k with
    | held hd =>
      rw [hk] at h
      cases c with
      | discharge start count =>
        refine .inr fun txn hactive => ?_
        have hall : (orKeep (s.state.discharge hd.tid start count) s.state).active = some txn := hactive
        simpa [HandleTask.overruns, hall] using h
      | getWrite bid device => exact .inl h
      | getCreate bid => exact .inl h
      | _ => exact .inl rfl
    | _ => exact .inl rfl
  | _ => exact .inl rfl

theorem fits_step (hs : s.Accounted) (hf : s.state.Fits g) (ev : HandleEvent)
    (hover : s.overruns g ev = false) : (s.step g ev).state.Fits g := by
  rcases strains_of_overruns hover with hs' | hfits
  · exact (turn g hs.seats ev).2.fits hs hf hs'
  · exact hfits

theorem fits_run (hs : s.Accounted) (hf : s.state.Fits g) {evs : List HandleEvent}
    (hb : s.Bounded g evs) : (s.run g evs).Accounted ∧ (s.run g evs).state.Fits g := by
  induction evs generalizing s with
  | nil => exact ⟨hs, hf⟩
  | cons ev evs ih =>
    exact ih (hs.step g ev (refused_of_overruns hb.1)) (fits_step hs hf ev hb.1) hb.2

def filledRun : List HandleEvent :=
  begin 1 2 ++ begin 2 2 ++ [.task 1 (.getCreate 20), .task 1 (.getCreate 21),
    .task 2 (.getCreate 22), .task 2 (.getCreate 23)]

def filled : HandleSys := (mount (Journal.new .small (Tid.ofNat 1) none 0)).run .small filledRun

theorem filledRun_bounded :
    (mount (new .small (Tid.ofNat 1) none 0)).Bounded .small filledRun := by
  decide +kernel

end HandleSys

end Ext4
