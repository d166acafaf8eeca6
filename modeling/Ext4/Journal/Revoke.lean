import Ext4.Journal.Format

namespace Ext4

structure RevokeTable where
  records : Nat → Option Tid

theorem Tid.geq_self (tid : Tid) : tid.geq tid = true := by simp [Tid.geq]

namespace RevokeTable

def new : RevokeTable := ⟨fun _ => none⟩

def record (table : RevokeTable) (blocknr : Nat) (tid : Tid) : RevokeTable :=
  match table.records blocknr with
  | some existing =>
    if existing.geq tid then table else ⟨Function.update table.records blocknr (some tid)⟩
  | none => ⟨Function.update table.records blocknr (some tid)⟩

def suppresses (table : RevokeTable) (blocknr : Nat) (tid : Tid) : Bool :=
  match table.records blocknr with
  | some revoked => revoked.geq tid
  | none => false

def retireThrough (table : RevokeTable) (through : Tid) : RevokeTable :=
  ⟨fun b => (table.records b).filter fun tid => !through.geq tid⟩

def recordAll (table : RevokeTable) (blocks : List Nat) (tid : Tid) : RevokeTable :=
  blocks.foldl (fun t b => t.record b tid) table

theorem records_record (table : RevokeTable) (a : Nat) (tid : Tid) (b : Nat) :
    (table.record a tid).records b =
      if b = a then some (((table.records a).filter fun e => e.geq tid).getD tid)
      else table.records b := by
  unfold record
  cases ha : table.records a with
  | none =>
    simp only [Function.update_apply]
    rfl
  | some e =>
    by_cases hg : e.geq tid = true
    · by_cases hb : b = a
      · subst hb
        simp [hg, ha, Option.filter]
      · simp [hg, hb]
    · simp [hg, Function.update_apply, Option.filter]

theorem records_recordAll {blocks : List Nat} {tid : Tid} {table : RevokeTable}
    (h : ∀ a e, table.records a = some e → e = tid ∨ e.geq tid = false) (b : Nat) :
    (table.recordAll blocks tid).records b = if b ∈ blocks then some tid else table.records b := by
  induction blocks generalizing table with
  | nil => rfl
  | cons a blocks ih =>
    have hrec : ∀ c, (table.record a tid).records c =
        if c = a then some tid else table.records c := by
      intro c
      rw [records_record]
      cases ha : table.records a with
      | none => rfl
      | some e => rcases h a e ha with rfl | he <;> simp [Option.filter, Tid.geq_self, *]
    have hstep : (table.recordAll (a :: blocks) tid).records b =
        ((table.record a tid).recordAll blocks tid).records b := rfl
    rw [hstep, ih]
    · rw [hrec]
      by_cases hb : b = a <;> simp [hb]
    · intro c e he
      rw [hrec] at he
      split_ifs at he
      · exact .inl (Option.some.inj he).symm
      · exact h c e he

theorem records_recordAll_new (blocks : List Nat) (tid : Tid) (b : Nat) :
    (new.recordAll blocks tid).records b = if b ∈ blocks then some tid else none :=
  records_recordAll (fun _ _ h => by cases h) b

end RevokeTable

end Ext4
