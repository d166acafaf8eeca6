import Ext4.Journal.Codec
import Ext4.Journal.Ring

namespace Ext4

open List

variable {M : Type} {g : JournalGeometry} {r : Nat → Except Fault Block} {tid : Tid} {pos c size : Nat}

def Laid (g : JournalGeometry) (r : Nat → Except Fault Block) : List Block → Nat → Prop
  | [], _ => True
  | block :: blocks, pos => r pos = .ok block ∧ Laid g r blocks (g.nextLogBlock pos)

theorem laid_append {as bs : List Block} :
    Laid g r (as ++ bs) pos ↔ Laid g r as pos ∧ Laid g r bs (g.advance pos as.length) := by
  induction as generalizing pos with
  | nil => simp [Laid, JournalGeometry.advance]
  | cons a as ih => simp [Laid, ih, JournalGeometry.advance, and_assoc]

theorem laid_iff {blocks : List Block} :
    Laid g r blocks pos ↔
      ∀ i block, blocks[i]? = some block → r (g.advance pos i) = .ok block := by
  induction blocks generalizing pos with
  | nil => simp [Laid]
  | cons b bs ih =>
    rw [Laid, ih]
    constructor
    · rintro ⟨hb, hbs⟩ i block hi
      cases i with
      | zero =>
        obtain rfl : b = block := by simpa using hi
        exact hb
      | succ i => exact hbs i block (by simpa using hi)
    · intro h
      exact ⟨h 0 b rfl, fun i block hi => h (i + 1) block (by simpa using hi)⟩

structure LogUnit where
  item : ChainItem
  data : List Block
  revokes : List Nat
  captures : List (Nat × Block)

variable {u : LogUnit} {us : List LogUnit}

def LogUnit.blocks (u : LogUnit) : List Block := u.item.block :: u.data

inductive LogUnit.Sound (g : JournalGeometry) (tid : Tid) : LogUnit → Prop
  | revoke {block entries} (hb : IsChainBlock block tid blocktypeRevoke)
      (hw : g.tagLayout.walkRevoke block = .ok entries) (ht : tailOk g block = true) :
      Sound g tid ⟨.revoke block, [], entries, []⟩
  | run {block run} (hb : IsChainBlock block tid blocktypeDescriptor)
      (hw : g.tagLayout.walk block = (runTags g.tagLayout g.csumSeed tid run.length run 0).map .ok)
      (ht : tailOk g block = true) :
      Sound g tid ⟨.descriptor block (runTags g.tagLayout g.csumSeed tid run.length run 0),
        run.map fun p => (LoggedBlock.ofImage p.2).logged, [], run⟩

theorem LogUnit.Sound.size_eq (h : u.Sound g tid) : u.item.size = u.blocks.length := by
  cases h <;> simp [ChainItem.size, ChainItem.tags, LogUnit.blocks]

theorem LogUnit.Sound.tailOk (h : u.Sound g tid) : tailOk g u.item.block = true := by
  cases h <;> assumption

def unitBlocks (us : List LogUnit) : List Block := us.flatMap LogUnit.blocks
def unitItems (us : List LogUnit) : List ChainItem := us.map LogUnit.item
def unitCaptures (us : List LogUnit) : List (Nat × Block) := us.flatMap LogUnit.captures
def unitRevokes (us : List LogUnit) : List Nat := us.flatMap LogUnit.revokes

theorem unitBlocks_cons (u : LogUnit) (us : List LogUnit) :
    unitBlocks (u :: us) = u.blocks ++ unitBlocks us := rfl

theorem tailsOk_units (hs : ∀ u ∈ us, u.Sound g tid) :
    TailsOk g (unitItems us) := by
  intro it hit
  obtain ⟨u, hu, rfl⟩ := mem_map.mp hit
  exact (hs u hu).tailOk

theorem unitItems_length_le (us : List LogUnit) : (unitItems us).length ≤ (unitBlocks us).length := by
  induction us with
  | nil => simp [unitItems, unitBlocks]
  | cons u us ih =>
    simp only [unitItems, length_map, length_cons] at ih ⊢
    rw [unitBlocks_cons, length_append]
    simp only [LogUnit.blocks, length_cons]
    omega

theorem bump_iterate {k : Nat} (h : c + k < 2 ^ 32) : bump^[k] c = c + k := by
  induction k generalizing c with
  | zero => rfl
  | succ k ih =>
    rw [Function.iterate_succ_apply, bump, Nat.mod_eq_of_lt (by omega), ih (by omega)]
    omega

section

variable (hs : ∀ u ∈ us, u.Sound g tid)

include hs

theorem withinLog_units (hc : c + (unitBlocks us).length ≤ g.maxlen) : WithinLog g (unitItems us) c := by
  have hmax := g.maxlen_lt
  induction us generalizing c with
  | nil => trivial
  | cons u us ih =>
    have hsize := (hs u (by simp)).size_eq
    rw [unitBlocks_cons, length_append] at hc
    have hb : bump^[u.item.size] c = c + u.blocks.length := by
      rw [hsize]
      exact bump_iterate (by omega)
    change bump^[u.item.size] c ≤ g.maxlen ∧ WithinLog g (unitItems us) (bump^[u.item.size] c)
    rw [hb]
    exact ⟨by omega, ih (fun v hv => hs v (by simp [hv])) (by omega)⟩

theorem chain_of_laid {commit : Block}
    (hcommit : IsChainBlock commit tid blocktypeCommit) (hl : Laid g r (unitBlocks us ++ [commit]) pos) :
    Chain g r tid pos (unitItems us) (g.advance pos (unitBlocks us).length) := by
  induction us generalizing pos with
  | nil => exact .commit hl.1 hcommit
  | cons u us ih =>
    have hrest : ∀ v ∈ us, v.Sound g tid := fun v hv => hs v (by simp [hv])
    rw [unitBlocks_cons, append_assoc, laid_append] at hl
    have hc := ih hrest hl.2
    rw [← g.advance_add, ← length_append, ← unitBlocks_cons] at hc
    have hu := hs u (by simp)
    cases hu with
    | revoke hb hw ht => exact .revoke hl.1.1 hb hc
    | run hb hw ht =>
      refine .descriptor hl.1.1 hb hw ?_
      simpa [LogUnit.blocks, unitItems] using hc

theorem collect_units (table : RevokeTable) :
    collectItems g tid (unitItems us) table = .ok (table.recordAll (unitRevokes us) tid) := by
  induction us generalizing table with
  | nil => rfl
  | cons u us ih =>
    have hrest := ih (fun v hv => hs v (by simp [hv]))
    have hsplit : table.recordAll (unitRevokes (u :: us)) tid =
        (table.recordAll u.revokes tid).recordAll (unitRevokes us) tid := by
      simp [RevokeTable.recordAll, unitRevokes]
    rw [hsplit]
    have hu := hs u (by simp)
    cases hu with
    | revoke hb hw ht =>
      simp only [unitItems, map_cons, collectItems, hw]
      exact hrest _
    | run hb hw ht => exact hrest _

end

theorem dataOk_runTags {bid : Nat} {flags : UInt16} {logged : Block} :
    dataOk g tid ⟨bid, flags, tagCsum g.tagLayout g.csumSeed tid logged⟩ logged = true := by
  unfold dataOk
  cases g.csumSeed with
  | none => rfl
  | some s => exact verifyDataCsum_tagCsum _ _ _ _ _ _

theorem replayTags_run {len : Nat} {revoked : RevokeTable} {run : List (Nat × Block)} {i : Nat}
    (hl : Laid g r (run.map fun p => (LoggedBlock.ofImage p.2).logged) (g.nextLogBlock pos))
    (hsize : ∀ p ∈ run, p.1 < size) :
    replayTags g r size tid revoked (runTags g.tagLayout g.csumSeed tid len run i) pos false =
      (.ok false, run.filter fun p => !revoked.suppresses p.1 tid) := by
  induction run generalizing i pos with
  | nil => rfl
  | cons p run ih =>
    obtain ⟨bid, bytes⟩ := p
    obtain ⟨hr, hrest⟩ := hl
    have hrec := ih hrest (i := i + 1) (fun q hq => hsize q (by simp [hq]))
    rw [runTags, replayTags]
    by_cases hsup : revoked.suppresses bid tid = true
    · simp only [hsup, if_true, hrec, filter_cons, Bool.not_true, Bool.false_eq_true, if_false]
    · simp only [Bool.not_eq_true] at hsup
      simp only [hsup, Bool.false_eq_true, if_false, hr, dataOk_runTags, Bool.true_eq_false,
        hsize (bid, bytes) (by simp), if_true, hrec, filter_cons, Bool.not_false]
      rw [loggedImage_logged (tagFlags_escaped ..)]

theorem replay_units (hs : ∀ u ∈ us, u.Sound g tid) (revoked : RevokeTable) (hl : Laid g r (unitBlocks us) pos)
    (hsize : ∀ p ∈ unitCaptures us, p.1 < size) :
    replayItems g r size tid revoked (unitItems us) pos false =
      (.ok (), (unitCaptures us).filter fun p => !revoked.suppresses p.1 tid) := by
  induction us generalizing pos with
  | nil => rfl
  | cons u us ih =>
    have hu := hs u (by simp)
    rw [unitBlocks_cons, laid_append] at hl
    have hrec := ih (fun v hv => hs v (by simp [hv])) hl.2
      (fun p hp => hsize p (by simp only [unitCaptures, flatMap_cons, mem_append]
                               exact .inr hp))
    rw [← hu.size_eq] at hrec
    have hhead : replayTags g r size tid revoked u.item.tags pos false =
        (.ok false, u.captures.filter fun p => !revoked.suppresses p.1 tid) := by
      cases hu with
      | revoke hb hw ht => rfl
      | run hb hw ht =>
        exact replayTags_run hl.1.2 fun p hp => hsize p (by
          simp only [unitCaptures, flatMap_cons, mem_append]
          exact .inl hp)
    rw [unitItems, map_cons, replayItems, hhead]
    simp only [unitItems] at hrec
    simp only [hrec, unitCaptures, flatMap_cons, filter_append]

end Ext4
