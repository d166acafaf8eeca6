import Ext4.Base.Region
import Ext4.Journal.Chain
import Ext4.Journal.Recovery

namespace Ext4

variable {M : Type} {g : JournalGeometry} {tid : Tid} {fuel consumed log : Nat} {table : RevokeTable} {count : Nat}

def JournalGeometry.InLog (g : JournalGeometry) (p : Nat) : Prop := p ∈ g.blockMap

def ReadsLog {α : Type} (g : JournalGeometry) (p : JournalIo M α) : Prop :=
  p.Forall (IoOp.ReadsIn g.InLog) (fun _ => True) fun _ => True

theorem readLogBlock_reads (g : JournalGeometry) (log : Nat) :
    ReadsLog g (g.readLogBlock log : JournalIo M Block) := by
  unfold JournalGeometry.readLogBlock
  cases hp : g.logBlockToPhysical log with
  | none => trivial
  | some p =>
    refine ⟨⟨p, List.mem_of_getElem? hp, rfl⟩, fun r => ?_⟩
    cases r <;> trivial

theorem scanLoop_reads {ok : Bool} : ReadsLog g (scanLoop g tid fuel ok consumed log : JournalIo M _) := by
  induction fuel generalizing ok consumed log with
  | zero => trivial
  | succ fuel ih =>
    refine (readLogBlock_reads g log).bind fun block _ => ?_
    refine .ite (fun _ => trivial) fun _ => .ite (fun _ => trivial) fun _ => ?_
    refine .ite (fun _ => .ite (fun _ => trivial) fun _ => ih) fun _ =>
      .ite (fun _ => trivial) fun _ => ?_
    refine .ite (fun _ => .ite (fun _ => trivial) fun _ => .ite (fun _ => trivial) fun _ => trivial)
      fun _ => ?_
    cases scanTags g (g.tagLayout.walk block) log consumed with
    | none => trivial
    | some p => exact .ite (fun _ => trivial) fun _ => ih

theorem collectLoop_reads :
    ReadsLog g (collectLoop g tid fuel table consumed log : JournalIo M _) := by
  induction fuel generalizing table consumed log with
  | zero => trivial
  | succ fuel ih =>
    refine (readLogBlock_reads g log).bind fun block _ => ?_
    refine .ite (fun _ => trivial) fun _ => .ite (fun _ => trivial) fun _ => ?_
    refine .ite (fun _ => trivial) fun _ => .ite (fun _ => ?_) fun _ =>
      .ite (fun _ => ?_) fun _ => trivial
    · cases g.tagLayout.walkRevoke block with
      | error e => trivial
      | ok entries => exact .ite (fun _ => trivial) fun _ => ih
    · cases collectTags g (g.tagLayout.walk block) log consumed with
      | error e => trivial
      | ok p => exact .ite (fun _ => trivial) fun _ => ih

theorem scanPass_reads {n : Nat} :
    ReadsLog g (scanPass g fuel n log tid count : JournalIo M _) := by
  induction n generalizing log tid count with
  | zero => trivial
  | succ n ih =>
    refine scanLoop_reads.bind fun next _ => ?_
    cases next with
    | none => trivial
    | some next => exact ih

theorem revokePass_reads :
    ReadsLog g (revokePass g fuel count log tid table : JournalIo M _) := by
  induction count generalizing log tid table with
  | zero => trivial
  | succ count ih => exact collectLoop_reads.bind fun _ _ => ih

section Replay
variable {d : Disk Block} {revoked : RevokeTable} {bad : Bool}

theorem readLogBlock_local (g : JournalGeometry) (d : Disk Block) (log : Nat) :
    (g.readLogBlock log : JournalIo M Block).Local g.InLog d fun block =>
      g.logRead d log = .ok block := by
  unfold JournalGeometry.readLogBlock
  cases hp : g.logBlockToPhysical log with
  | none => trivial
  | some p =>
    refine ⟨List.mem_of_getElem? hp, ?_⟩
    cases hr : d.read p with
    | none => trivial
    | some block => exact g.logRead_eq_ok hp hr

theorem writeBlock_local {b : Nat} (hb : ¬g.InLog b) (v : Block) (msg : String) :
    (writeBlock b v msg : JournalIo M Unit).Local g.InLog d fun _ => True := by
  refine ⟨hb, ?_⟩
  cases decide (b < d.size) <;> trivial

theorem applyTags_local {items : List (Except Fault DescriptorTag)}
    (hout : ∀ tag, .ok tag ∈ items → tag.blocknr ∉ g.blockMap) :
    (applyTags g tid revoked items log consumed bad : JournalIo M _).Local g.InLog d
      fun _ => True := by
  induction items generalizing log consumed bad with
  | nil => trivial
  | cons item items ih =>
    cases item with
    | error e => trivial
    | ok tag =>
      have hrest : ∀ tag, .ok tag ∈ items → tag.blocknr ∉ g.blockMap :=
        fun tag ht => hout tag (by simp [ht])
      refine .ite (fun _ => ih hrest) fun _ => ?_
      refine (readLogBlock_local g d _).bind fun block _ => .ite (fun _ => ih hrest) fun _ => ?_
      exact (writeBlock_local (hout tag (by simp)) _ _).bind fun _ _ => ih hrest

theorem applyLoop_local (hout : TagsOutsideLog g d tid) :
    (applyLoop g tid revoked fuel bad consumed log : JournalIo M _).Local g.InLog d
      fun _ => True := by
  induction fuel generalizing bad consumed log with
  | zero => trivial
  | succ fuel ih =>
    refine (readLogBlock_local g d log).bind fun block hread => ?_
    refine .ite (fun _ => trivial) fun hmagic => .ite (fun _ => trivial) fun htid => ?_
    refine .ite (fun _ => .ite (fun _ => trivial) fun _ => trivial) fun _ =>
      .ite (fun _ => .ite (fun _ => trivial) fun _ => ih) fun _ =>
      .ite (fun _ => trivial) fun htype => .ite (fun _ => trivial) fun _ => ?_
    have htags := hout log block hread ⟨not_not.mp hmagic, not_not.mp htid, not_not.mp htype⟩
    exact (applyTags_local htags).bind fun p _ => .ite (fun _ => trivial) fun _ => ih

theorem replayPass_local (hout : ∀ tid, TagsOutsideLog g d tid) :
    (replayPass g fuel revoked count log tid : JournalIo M _).Local g.InLog d fun _ => True := by
  induction count generalizing log tid with
  | zero => trivial
  | succ count ih => exact (applyLoop_local (hout tid)).bind fun _ _ => ih

end Replay

def recoveryPasses (g : JournalGeometry) (fuel start : Nat) (tid : Tid) : JournalIo M Tid := do
  let (endTid, count) ← scanPass g fuel fuel start tid 0
  let revoked ← revokePass g fuel count start tid .new
  replayPass g fuel revoked count start tid
  pure endTid

theorem recoveryPasses_local {d : Disk Block} (hout : ∀ tid, TagsOutsideLog g d tid) (start : Nat) :
    (recoveryPasses g fuel start tid : JournalIo M _).Local g.InLog d fun _ => True := by
  refine (Prog.Local.of_reads scanPass_reads).bind fun p _ => ?_
  refine (Prog.Local.of_reads revokePass_reads).bind fun revoked _ => ?_
  exact (replayPass_local hout).bind fun _ _ => trivial

end Ext4
