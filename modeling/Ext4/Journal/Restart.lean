import Ext4.Journal.Footprint
import Ext4.Journal.RoundTrip

namespace Ext4

variable {g : JournalGeometry} {fuel : Nat} {v : Block}

inductive Interrupted (g : JournalGeometry) (fuel : Nat) (d : Disk Block) : Disk Block → Prop
  | refl : Interrupted g fuel d d
  | crash {e e'} (he : Interrupted g fuel d e) (m : Journal) (n : Nat)
      (hc : ((recover g fuel).after World.handle n ⟨e, m⟩).disk.Crash e') : Interrupted g fuel d e'

def clearedSuper (g : JournalGeometry) (raw : RawJournalSuperblock) (endTid : Tid) :
    RawJournalSuperblock :=
  ((raw.withStart 0).withSequence endTid).withHead g.first

theorem recoveryStart_clearedSuper (raw : RawJournalSuperblock) (endTid : Tid) :
    (clearedSuper g raw endTid).stampChecksum.recoveryStart = none := by
  simp [RawJournalSuperblock.recoveryStart, clearedSuper]

def sealRecovery (g : JournalGeometry) (raw : RawJournalSuperblock) (endTid : Tid) :
    JournalIo Journal Unit := do
  barrier
  g.writeSuperblock (clearedSuper g raw endTid)
  let _ ← Io.atomically (Journal.recovered g endTid)
  let _ ← Io.atomically fun j => { j with committedTid := endTid.prev }
  pure ()

theorem recover_eq (g : JournalGeometry) (fuel : Nat) :
    recover g fuel = g.readRawSuperblock.bind fun raw =>
      match raw.recoveryStart with
      | none => .ret ()
      | some start => (recoveryPasses g fuel start (Tid.ofNat raw.sSequence)).bind
          (sealRecovery g raw) := by
  unfold recover recoveryPasses sealRecovery clearedSuper
  simp only [Prog.bind_eq, Prog.bind_assoc, Prog.pure_eq, Prog.ret_bind]
  try rfl

theorem readRawSuperblock_reads (g : JournalGeometry) :
    ReadsLog g (g.readRawSuperblock : JournalIo Journal _) := by
  unfold JournalGeometry.readRawSuperblock JournalGeometry.superblockOffset
  rw [JournalGeometry.physical_eq g.maxlen_pos]
  refine ⟨⟨_, JournalGeometry.physical_mem g.maxlen_pos, rfl⟩, fun r => ?_⟩
  cases r <;> trivial

section Seal
variable (raw : RawJournalSuperblock) (endTid : Tid) {w : World Block Journal}

def sealedBlock (g : JournalGeometry) (raw : RawJournalSuperblock) (endTid : Tid) (block : Block) :
    Block :=
  JournalGeometry.putRaw (clearedSuper g raw endTid).stampChecksum block

theorem after_barrier (n : Nat) (w : World Block Journal) :
    barrier.after World.handle n w = w ∨
      barrier.after World.handle n w = { w with disk := w.disk.barrier } := by
  cases n with
  | zero => exact .inl rfl
  | succ n => exact .inr rfl

def Disk.sealSuper (g : JournalGeometry) (raw : RawJournalSuperblock) (endTid : Tid)
    (d : Disk Block) : Disk Block :=
  d.write (g.physical 0) (sealedBlock g raw endTid (d.view (g.physical 0)))

section

variable (hw : g.physical 0 < w.disk.size)

include hw

theorem run_sealSuper :
    (g.writeSuperblock (clearedSuper g raw endTid)).run World.handle w =
      (.ok (), ⟨(Disk.sealSuper g raw endTid w.disk).barrier, w.mem⟩) :=
  g.run_writeSuperblock (JournalGeometry.physical_eq g.maxlen_pos) hw _

theorem after_writeSuperblock (n : Nat) :
    let d := w.disk.write (g.physical 0) (JournalGeometry.putRaw raw.stampChecksum (w.disk.view (g.physical 0)))
    ((g.writeSuperblock raw).after World.handle n w).disk ∈ [w.disk, d, d.barrier] := by
  intro d
  unfold JournalGeometry.writeSuperblock JournalGeometry.superblockOffset
  rw [JournalGeometry.physical_eq g.maxlen_pos]
  cases n with
  | zero => exact List.mem_cons_self
  | succ n =>
    simp only [Prog.bind_eq, Prog.ofExcept, Prog.ret_bind, Io.modify, Prog.op_bind, Prog.after,
      World.handle, if_pos hw, if_true]
    apply List.mem_cons_of_mem
    rcases after_barrier n ⟨d, w.mem⟩ with h | h
    · exact List.mem_cons.mpr (.inl (congrArg World.disk h))
    · exact List.mem_cons_of_mem _ (List.mem_singleton.mpr (congrArg World.disk h))

theorem after_sealRecovery (n : Nat) :
    ((sealRecovery g raw endTid).after World.handle n w).disk ∈
      [w.disk, w.disk.barrier, Disk.sealSuper g raw endTid w.disk.barrier,
        (Disk.sealSuper g raw endTid w.disk.barrier).barrier] := by
  refine Prog.after_bind World.handle (P := fun t => t.disk ∈ _) (fun n => ?_)
    (fun _ t hb n => ?_) n
  · rcases after_barrier n w with h | h <;> simp [h]
  cases (run_barrier w).symm.trans hb
  apply List.mem_cons_of_mem
  refine Prog.after_bind World.handle (P := fun t => t.disk ∈ _) (fun n => ?_)
    (fun _ t hs n => ?_) n
  · exact after_writeSuperblock (w := ⟨w.disk.barrier, w.mem⟩) _ hw n
  cases (run_sealSuper (w := ⟨w.disk.barrier, w.mem⟩) raw endTid hw).symm.trans hs
  simp only [List.mem_cons]
  right; right; left
  match n with
  | 0 => rfl
  | 1 => rfl
  | n + 2 => rfl

theorem run_sealRecovery :
    (sealRecovery g raw endTid).run World.handle w =
      (.ok (), ⟨(Disk.sealSuper g raw endTid w.disk.barrier).barrier,
        { Journal.recovered g endTid w.mem with committedTid := endTid.prev }⟩) := by
  refine (Prog.run_bind_ok _ (run_barrier w)).trans ?_
  exact Prog.run_bind_ok _ (run_sealSuper (w := ⟨w.disk.barrier, w.mem⟩) raw endTid hw)

end

end Seal

theorem recover_clean {e : Disk Block} {block : Block} (hread : e.read (g.physical 0) = some block)
    (hclean : (JournalGeometry.rawOfBlock block).recoveryStart = none) (m : Journal) :
    (recover g fuel).run World.handle ⟨e, m⟩ = (.ok (), ⟨e, m⟩) ∧
      ∀ n, (recover g fuel).after World.handle n ⟨e, m⟩ = ⟨e, m⟩ := by
  have hraw := g.run_readRawSuperblock (w := ⟨e, m⟩) (JournalGeometry.physical_eq g.maxlen_pos) hread
  rw [recover_eq]
  refine ⟨?_, fun n => ?_⟩
  · rw [Prog.run_bind_ok _ hraw, hclean]
    rfl
  · refine Prog.after_bind World.handle (P := (· = ⟨e, m⟩)) (fun n => ?_) (fun raw t ht n => ?_) n
    · exact Prog.after_of_reads (readRawSuperblock_reads g) n _
    · cases hraw.symm.trans ht
      rw [hclean]
      rfl

structure Restores (g : JournalGeometry) (fuel : Nat) (d : Disk Block) (ws : List (Nat × Block))
    (v : Block) : Prop where
  super_lt : g.physical 0 < d.size
  dest : ∀ x ∈ ws, x.1 ∉ g.blockMap
  clean : (JournalGeometry.rawOfBlock v).recoveryStart = none
  run : ∀ e m, d.Agree g.InLog e → e.pending = [] →
    ∃ w, (recover g fuel).run World.handle ⟨e, m⟩ = (.ok (), w) ∧ w.disk.pending = [] ∧
      w.disk.view = Function.update (Disk.applyWrites ws e.view) (g.physical 0) v
  crash : ∀ e m n e', d.Agree g.InLog e → e.pending = [] →
    ((recover g fuel).after World.handle n ⟨e, m⟩).disk.Crash e' → e'.size = e.size ∧
      ((∀ b, (∀ x ∈ ws, x.1 ≠ b) → e'.view b = e.view b) ∨
        e'.view = Function.update (Disk.applyWrites ws e.view) (g.physical 0) v)

theorem crash_idle {e e' : Disk Block} (he : e.pending = []) (hc : e.Crash e') :
    e'.size = e.size ∧ e'.view = e.view := by
  obtain ⟨us, hs, rfl⟩ := hc
  rw [he] at hs
  cases List.sublist_nil.mp hs
  simp [Disk.view, he]

theorem restores_clean {d : Disk Block} (hlt : g.physical 0 < d.size)
    (hclean : (JournalGeometry.rawOfBlock (d.view (g.physical 0))).recoveryStart = none) :
    Restores g fuel d [] (d.view (g.physical 0)) := by
  have hread : ∀ e, d.Agree g.InLog e →
      e.read (g.physical 0) = some (d.view (g.physical 0)) := fun e he =>
    (he.read_eq (JournalGeometry.physical_mem g.maxlen_pos)).trans (if_pos hlt)
  refine ⟨hlt, nofun, hclean, fun e m he hp => ?_, fun e m n e' he hp hc => ?_⟩
  · refine ⟨_, (recover_clean (hread e he) hclean m).1, hp, ?_⟩
    rw [Disk.applyWrites_nil, ← he.view_eq _ (JournalGeometry.physical_mem g.maxlen_pos), Function.update_eq_self]
  · rw [(recover_clean (hread e he) hclean m).2 n] at hc
    obtain ⟨hsize, hview⟩ := crash_idle hp hc
    exact ⟨hsize, .inl fun b _ => congrFun hview b⟩

theorem crash_issue {e e' : Disk Block} {us ws : List (Nat × Block)} (he : e.pending = [])
    (hus : us <+: ws) (hc : (e.issue us).Crash e') :
    e'.size = e.size ∧ ∀ b, (∀ x ∈ ws, x.1 ≠ b) → e'.view b = e.view b := by
  refine ⟨hc.size_eq, fun b hb => ?_⟩
  have hview : e.view b = e.durable b := by simp [Disk.view, he]
  rw [hc.view_eq, hview]
  rcases hc.pointwise b with h | h
  · exact h
  · simp only [Disk.issue, he, List.nil_append] at h
    exact absurd rfl (hb _ (hus.subset h))

theorem view_sealSuper (raw : RawJournalSuperblock) (endTid : Tid) (d : Disk Block) :
    (Disk.sealSuper g raw endTid d).view = Function.update d.view (g.physical 0)
      (sealedBlock g raw endTid (d.view (g.physical 0))) :=
  d.view_write _ _

theorem crash_sealSuper {raw : RawJournalSuperblock} {endTid : Tid} {d e' : Disk Block}
    (hd : d.pending = []) (hc : (Disk.sealSuper g raw endTid d).Crash e') :
    e'.view = d.view ∨ e'.view = (Disk.sealSuper g raw endTid d).view := by
  have hview : d.view = d.durable := by simp [Disk.view, hd]
  have he' := hc.view_eq
  obtain ⟨us, hs, rfl⟩ := hc
  simp only [Disk.sealSuper, Disk.write_pending, hd, List.nil_append] at hs
  rw [he', view_sealSuper, hview]
  rcases List.sublist_singleton.mp hs with rfl | rfl
  · exact .inl rfl
  · exact .inr (by simp [Disk.sealSuper, hview])

structure PassesWrite (g : JournalGeometry) (fuel : Nat) (d : Disk Block)
    (raw : RawJournalSuperblock) (start : Nat) (endTid : Tid) (ws : List (Nat × Block)) : Prop where
  super_lt : g.physical 0 < d.size
  raw_eq : JournalGeometry.rawOfBlock (d.view (g.physical 0)) = raw
  start_eq : raw.recoveryStart = some start
  dest : ∀ x ∈ ws, ¬g.InLog x.1
  run : ∀ w : World Block Journal, d.Agree g.InLog w.disk →
    (recoveryPasses g fuel start (Tid.ofNat raw.sSequence)).run World.handle w =
      (.ok endTid, w.issue ws)
  after : ∀ (w : World Block Journal) n, d.Agree g.InLog w.disk → ∃ us, us <+: ws ∧
    (recoveryPasses g fuel start (Tid.ofNat raw.sSequence)).after World.handle n w = w.issue us

def RecoveryStage (g : JournalGeometry) (raw : RawJournalSuperblock) (endTid : Tid)
    (ws : List (Nat × Block)) (e d : Disk Block) : Prop :=
  d ∈ [(e.issue ws).barrier, Disk.sealSuper g raw endTid (e.issue ws).barrier,
    (Disk.sealSuper g raw endTid (e.issue ws).barrier).barrier] ∨
  ∃ us, us <+: ws ∧ d = e.issue us

section Dirty
variable {d : Disk Block} {raw : RawJournalSuperblock} {start : Nat} {endTid : Tid}
  {ws : List (Nat × Block)} (h : PassesWrite g fuel d raw start endTid ws)
  {e : Disk Block} (he : d.Agree g.InLog e)
include h he

theorem PassesWrite.readRaw (m : Journal) :
    g.readRawSuperblock.run World.handle ⟨e, m⟩ = (.ok raw, ⟨e, m⟩) := by
  have hread := (he.read_eq (JournalGeometry.physical_mem g.maxlen_pos)).trans (if_pos h.super_lt)
  rw [g.run_readRawSuperblock (JournalGeometry.physical_eq g.maxlen_pos) hread, h.raw_eq]

theorem PassesWrite.view_sealed :
    (Disk.sealSuper g raw endTid (e.issue ws).barrier).view =
      Function.update (Disk.applyWrites ws e.view) (g.physical 0)
        (sealedBlock g raw endTid (d.view (g.physical 0))) := by
  have hmem := JournalGeometry.physical_mem g.maxlen_pos
  have hsuper : Disk.applyWrites ws e.view (g.physical 0) = d.view (g.physical 0) :=
    (Disk.applyWrites_other fun x hx hx' => h.dest x hx (hx' ▸ hmem)).trans (he.view_eq _ hmem)
  rw [view_sealSuper, Disk.view_barrier, Disk.view_issue, hsuper]

theorem PassesWrite.run_recover (m : Journal) :
    (recover g fuel).run World.handle ⟨e, m⟩ =
      (.ok (), ⟨(Disk.sealSuper g raw endTid (e.issue ws).barrier).barrier,
        { Journal.recovered g endTid m with committedTid := endTid.prev }⟩) := by
  have hlt : g.physical 0 < e.size := he.size_eq ▸ h.super_lt
  rw [recover_eq, Prog.run_bind_ok _ (h.readRaw he m), h.start_eq]
  exact (Prog.run_bind_ok _ (h.run ⟨e, m⟩ he)).trans (run_sealRecovery raw endTid hlt)

theorem PassesWrite.after_recover (m : Journal) (n : Nat) :
    RecoveryStage g raw endTid ws e ((recover g fuel).after World.handle n ⟨e, m⟩).disk := by
  have hlt : g.physical 0 < e.size := he.size_eq ▸ h.super_lt
  rw [recover_eq]
  refine Prog.after_bind World.handle (P := fun t => RecoveryStage g raw endTid ws e t.disk)
    (fun n => .inr ⟨[], List.nil_prefix, ?_⟩) (fun raw' t ht n => ?_) n
  · rw [Prog.after_of_reads (readRawSuperblock_reads g), Disk.issue_nil]
  cases (h.readRaw he m).symm.trans ht
  rw [h.start_eq]
  refine Prog.after_bind World.handle (P := fun t => RecoveryStage g raw endTid ws e t.disk)
    (fun n => ?_) (fun tid t ht n => ?_) n
  · obtain ⟨us, hus, hn⟩ := h.after ⟨e, m⟩ n he
    exact .inr ⟨us, hus, congrArg World.disk hn⟩
  cases (h.run ⟨e, m⟩ he).symm.trans ht
  rcases List.mem_cons.mp (after_sealRecovery (w := World.issue ⟨e, m⟩ ws) raw endTid hlt n)
    with hd | hd
  · exact .inr ⟨ws, List.prefix_rfl, hd⟩
  · exact .inl hd

theorem PassesWrite.crash {m : Journal} {n : Nat} {e' : Disk Block} (hp : e.pending = [])
    (hc : ((recover g fuel).after World.handle n ⟨e, m⟩).disk.Crash e') :
    e'.size = e.size ∧ ((∀ b, (∀ x ∈ ws, x.1 ≠ b) → e'.view b = e.view b) ∨
      e'.view = Function.update (Disk.applyWrites ws e.view) (g.physical 0)
        (sealedBlock g raw endTid (d.view (g.physical 0)))) := by
  have hwritten : ∀ b, (∀ x ∈ ws, x.1 ≠ b) → (e.issue ws).barrier.view b = e.view b := by
    intro b hb
    rw [Disk.view_barrier, Disk.view_issue, Disk.applyWrites_other hb]
  rcases h.after_recover he m n with hd | ⟨us, hus, hd⟩
  · simp only [List.mem_cons, List.not_mem_nil, or_false] at hd
    rcases hd with hd | hd | hd <;> rw [hd] at hc
    · obtain ⟨hsize, hview⟩ := crash_idle rfl hc
      exact ⟨hsize, .inl fun b hb => (congrFun hview b).trans (hwritten b hb)⟩
    · refine ⟨hc.size_eq, ?_⟩
      rcases crash_sealSuper rfl hc with hview | hview
      · exact .inl fun b hb => (congrFun hview b).trans (hwritten b hb)
      · exact .inr (hview.trans (h.view_sealed he))
    · obtain ⟨hsize, hview⟩ := crash_idle rfl hc
      exact ⟨hsize, .inr (hview.trans (h.view_sealed he))⟩
  · rw [hd] at hc
    obtain ⟨hsize, hview⟩ := crash_issue hp hus hc
    exact ⟨hsize, .inl hview⟩

omit he in
theorem PassesWrite.restores :
    Restores g fuel d ws (sealedBlock g raw endTid (d.view (g.physical 0))) where
  super_lt := h.super_lt
  dest := h.dest
  clean := by rw [sealedBlock, JournalGeometry.rawOfBlock_putRaw, recoveryStart_clearedSuper]
  run _ m he _ := ⟨_, h.run_recover he m, rfl, h.view_sealed he⟩
  crash _ _ _ _ he hp hc := h.crash he hp hc

end Dirty

theorem exists_restores {d : Disk Block} (hout : ∀ tid, TagsOutsideLog g d tid) {m : Journal}
    {w : World Block Journal} (hok : (recover g fuel).run World.handle ⟨d, m⟩ = (.ok (), w)) :
    ∃ ws v, Restores g fuel d ws v := by
  have hlt : g.physical 0 < d.size := by
    by_contra hlt
    have hread : d.read (g.physical 0) = none := if_neg hlt
    simp [recover_eq, JournalGeometry.readRawSuperblock, JournalGeometry.superblockOffset,
      JournalGeometry.physical_eq g.maxlen_pos, Prog.ofExcept, readBlock, Io.read, World.handle, hread] at hok
  cases hstart : (JournalGeometry.rawOfBlock (d.view (g.physical 0))).recoveryStart with
  | none => exact ⟨[], _, restores_clean hlt hstart⟩
  | some start =>
    obtain ⟨res, ws, hws, -, hrun⟩ := (recoveryPasses_local hout start).spec
    have hraw := g.run_readRawSuperblock (w := ⟨d, m⟩) (JournalGeometry.physical_eq g.maxlen_pos)
      (if_pos hlt)
    rw [recover_eq, Prog.run_bind_ok _ hraw, hstart] at hok
    cases res with
    | error e =>
      have hfail := (hrun ⟨d, m⟩ (.refl _ _)).1
      dsimp only at hok
      rw [Prog.run_bind_error _ hfail] at hok
      cases hok
    | ok endTid =>
      exact ⟨ws, _, PassesWrite.restores ⟨hlt, rfl, hstart, hws, fun w hw => (hrun w hw).1,
        fun w n hw => (hrun w hw).2 n⟩⟩

theorem Restores.agree {d e : Disk Block} {ws : List (Nat × Block)} (h : Restores g fuel d ws v)
    (hsize : e.size = d.size) (hoff : ∀ b, (∀ x ∈ ws, x.1 ≠ b) → e.view b = d.view b) : d.Agree g.InLog e :=
  ⟨hsize, fun b hb => hoff b fun x hx hx' => h.dest x hx (hx' ▸ hb)⟩

theorem applyWrites_off {ws : List (Nat × Block)} {m m' : Nat → Block}
    (hoff : ∀ b, (∀ x ∈ ws, x.1 ≠ b) → m b = m' b) :
    Disk.applyWrites ws m = Disk.applyWrites ws m' := by
  funext b
  apply Disk.applyWrites_congr
  by_cases hb : ∃ x ∈ ws, x.1 = b
  · exact .inl hb
  · exact .inr (hoff b fun x hx hx' => hb ⟨x, hx, hx'⟩)

section

variable {d e : Disk Block} {ws : List (Nat × Block)} (h : Restores g fuel d ws v) (hd : d.pending = []) (hi : Interrupted g fuel d e)
include h hd hi

theorem Restores.interrupted :
    e.pending = [] ∧ e.size = d.size ∧
      ((∀ b, (∀ x ∈ ws, x.1 ≠ b) → e.view b = d.view b) ∨
        e.view = Function.update (Disk.applyWrites ws d.view) (g.physical 0) v) := by
  induction hi with
  | refl => exact ⟨hd, rfl, .inl fun _ _ => rfl⟩
  | @crash e e' _ m n hc ih =>
    obtain ⟨hp, hsize, hview⟩ := ih
    refine ⟨hc.pending_nil, ?_⟩
    rcases hview with hoff | hdone
    · obtain ⟨hsize', hview'⟩ := h.crash e m n e' (h.agree hsize hoff) hp hc
      refine ⟨hsize'.trans hsize, ?_⟩
      rcases hview' with hoff' | hdone'
      · exact .inl fun b hb => (hoff' b hb).trans (hoff b hb)
      · exact .inr (applyWrites_off hoff ▸ hdone')
    · have hread : e.read (g.physical 0) = some v := by
        rw [Disk.read, hsize, if_pos h.super_lt, hdone, Function.update_self]
      rw [(recover_clean hread h.clean m).2 n] at hc
      obtain ⟨hsize', hview'⟩ := crash_idle hp hc
      exact ⟨hsize'.trans hsize, .inr (hview'.trans hdone)⟩

theorem Restores.run_interrupted (m : Journal) :
    ∃ w, (recover g fuel).run World.handle ⟨e, m⟩ = (.ok (), w) ∧
      w.disk.durable = Function.update (Disk.applyWrites ws d.view) (g.physical 0) v := by
  obtain ⟨hp, hsize, hview⟩ := h.interrupted hd hi
  rcases hview with hoff | hdone
  · obtain ⟨w, hrun, hpend, hview⟩ := h.run e m (h.agree hsize hoff) hp
    refine ⟨w, hrun, ?_⟩
    rw [← applyWrites_off hoff, ← hview]
    simp [Disk.view, hpend]
  · have hread : e.read (g.physical 0) = some v := by
      rw [Disk.read, hsize, if_pos h.super_lt, hdone, Function.update_self]
    refine ⟨_, (recover_clean hread h.clean m).1, ?_⟩
    rw [← hdone]
    simp [Disk.view, hp]

end

namespace Replayed

def content : Nat → Block
  | 0 => Bytes.putBE (Bytes.putBE (Bytes.zeros _) 24 4 5) 28 4 1
  | 1 => Bytes.putBE (Bytes.putBE (putHeader (Bytes.zeros _) blocktypeDescriptor (Tid.ofNat 5))
      12 4 10) 18 2 tagFlagLastTag.toNat
  | 2 => fun _ => 7
  | 3 => putHeader (Bytes.zeros _) blocktypeCommit (Tid.ofNat 5)
  | _ => Bytes.zeros _

def disk : Disk Block := ⟨16, content, []⟩

def journal : Journal := Journal.new .small (Tid.ofNat 5) (some 1) 0

theorem tagsOutsideLog (tid : Tid) : TagsOutsideLog .small disk tid := by
  intro log block hr hb tag ht hmem
  have hcheck : ∀ p ∈ List.range 8,
      ((RawJournalHeader.parse (content p)).blocktype ≠ blocktypeDescriptor ∨
        ∀ item ∈ JournalGeometry.small.tagLayout.walk (content p),
          ∀ b ∈ List.range 8, item.toOption.map DescriptorTag.blocknr ≠ some b) := by
    decide +kernel
  obtain ⟨p, hp, hread⟩ := logRead_ok hr
  have hblock : content p = block := Option.some.inj (Option.ite_none_right_eq_some.mp hread).2
  rcases hcheck p (List.mem_of_getElem? hp) with h | h
  · exact h (hblock ▸ hb.blocktype)
  · exact h _ (hblock ▸ ht) _ hmem rfl

theorem recover_ok : ∃ w, (recover .small 4).run World.handle ⟨disk, journal⟩ = (.ok (), w) := by
  have hcheck : (match ((recover .small 4).run World.handle ⟨disk, journal⟩).1 with
    | .ok () => true
    | .error _ => false) = true := by decide +kernel
  cases h : (recover .small 4).run World.handle ⟨disk, journal⟩ with
  | mk res w =>
    cases res with
    | ok u => exact ⟨w, rfl⟩
    | error e => simp [h] at hcheck

end Replayed

end Ext4
