import Ext4.Base.History
import Ext4.Base.Thread
import Ext4.Journal.Committer
import Ext4.Journal.Handle
import Ext4.Journal.RoundTrip

namespace Ext4

namespace TxnRecord

def image (rec : TxnRecord) (b : Nat) : Option Block :=
  (rec.captures.find? fun p => p.1 = b).map Prod.snd

def event (rec : TxnRecord) (b : Nat) : Option (Option Block) :=
  match rec.image b with
  | some v => some (some v)
  | none => if b ∈ rec.revokes then some none else none

end TxnRecord

theorem Transaction.image_record (txn : Transaction) (b : Nat) :
    txn.record.image b = txn.bufferBytes b := by
  simp only [TxnRecord.image, record, metadataBlocks, bufferBytes, SortedMap.get, List.find?_map, Option.map_map]
  rfl

inductive OpCall where
  | admitCredits (servicer : Bool) (credits : Nat)
  | stop (h : Handle)
  | extend (h : Handle) (extra : Nat)
  | getWrite (h : Handle) (bid : Nat)
  | getCreate (h : Handle) (bid : Nat)
  | patch (tid : Tid) (bid generation : Nat) (f : Block → Block)
  | discharge (tid : Tid) (start count : Nat)
  | pin (tid : Tid) (start count : Nat)
  | register (tid : Tid) (ino len : Nat)
  | request (target : Tid)
  | pressure
  | abort

def Journal.withState (j : Journal) (st : JournalState) : Journal := { j with state := st }

def orKeep (r : Except Fault JournalState) (st : JournalState) : JournalState := r.toOption.getD st

namespace OpCall

def run (g : JournalGeometry) (d : Disk Block) (j : Journal) : OpCall → Journal
  | .admitCredits servicer credits => (j.admitCredits g servicer credits).2
  | .stop h => j.withState (j.state.journalStop h)
  | .extend h extra => j.withState (j.state.journalExtend g h extra).2.2
  | .getWrite h bid => j.withState (j.state.getWriteAccess g h bid (d.read bid)).2.2
  | .getCreate h bid => j.withState (j.state.getCreateAccess g h bid).2.2
  | .patch tid bid generation f =>
    j.withState (orKeep (j.state.patch tid bid generation f) j.state)
  | .discharge tid start count => j.withState (orKeep (j.state.discharge tid start count) j.state)
  | .pin tid start count => j.withState (orKeep (j.state.pinFreedRun tid start count) j.state)
  | .register tid ino len => j.withState (orKeep (j.state.registerOrderedData tid ino len) j.state)
  | .request target => j.withState (j.state.requestCommitFor target)
  | .pressure => { j with spacePressure := true }
  | .abort => { j with aborted := true, sbError := sErrnoErrorMarker }

def Allowed (g : JournalGeometry) (size : Nat) : OpCall → Prop
  | .getWrite _ bid => bid < size ∧ bid ∉ g.blockMap
  | .getCreate _ bid => bid < size ∧ bid ∉ g.blockMap
  | _ => True

def captured (st : JournalState) (tid : Tid) (bid : Nat) : Option Block :=
  (st.activeTxn tid).bind fun txn => txn.bufferBytes bid

def content (st st' : JournalState) (truth : Nat → Option Block) : OpCall → Nat → Option Block
  | .getWrite h bid => fun b =>
    if b = bid then (truth b).or (captured st' h.tid bid) else truth b
  | .getCreate h bid => fun b =>
    if b = bid ∧ captured st h.tid bid = none then (captured st' h.tid bid).or (truth b)
    else truth b
  | .patch tid bid generation f => fun b =>
    if b = bid ∧ (st.patch tid bid generation f).isOk then (truth b).map f else truth b
  | .discharge tid start count => fun b =>
    if b ∈ List.range' start count ∧ (st.activeTxn tid).isSome then none else truth b
  | _ => truth

end OpCall

structure Ghost where
  hist : List TxnRecord
  retired : Nat
  logged : Nat
  published : Nat
  truth : Nat → Option Block
  snapshot : Journal
  written : List (Nat × Block)
  closed : Bool

def JournalState.isLogged (st : JournalState) : Bool :=
  st.committing.any fun c => c.phase = .finished

namespace Ghost

def staged (γ : Ghost) (before after : JournalState) : List TxnRecord :=
  match before.committing, after.committing with
  | none, some c => γ.hist ++ [c.txn.record]
  | _, _ => γ.hist

def track (γ : Ghost) (o : IoOp Block Journal) (before after : Journal) : Ghost :=
  { γ with
    hist := γ.staged before.state after.state
    retired := γ.retired + (after.state.tailTid.raw - before.state.tailTid.raw).toNat
    logged := if after.state.isLogged ∧ before.state.isLogged = false then γ.hist.length
      else γ.logged
    published := if after.committedTid = before.committedTid then γ.published else γ.hist.length
    snapshot := match o with
      | .observe => before
      | _ => γ.snapshot
    written := match o with
      | .observe => []
      | .write b v => γ.written ++ [(b, v)]
      | _ => γ.written }

end Ghost

structure Sys where
  world : World Block Journal
  ghost : Ghost

namespace Sys

abbrev disk (s : Sys) : Disk Block := s.world.disk
abbrev mem (s : Sys) : Journal := s.world.mem
abbrev state (s : Sys) : JournalState := s.world.mem.state

def handle : Prog.Handler (IoSig Block Journal) Sys := fun o s =>
  ((World.handle o s.world).1, ⟨(World.handle o s.world).2, s.ghost.track o s.mem (World.handle o s.world).2.mem⟩)

def call (g : JournalGeometry) (s : Sys) (c : OpCall) : Sys where
  world := ⟨s.disk, c.run g s.disk s.mem⟩
  ghost := { s.ghost with
    truth := c.content s.state (c.run g s.disk s.mem).state s.ghost.truth }

def dataWrite (s : Sys) (b : Nat) (v : Block) : Sys where
  world := ⟨s.disk.write b v, s.mem⟩
  ghost := { s.ghost with truth := Function.update s.ghost.truth b none }

def flush (s : Sys) : Sys := ⟨⟨s.disk.barrier, s.mem⟩, s.ghost⟩

def close (s : Sys) : Sys := ⟨s.world, { s.ghost with closed := true }⟩

def activeEvent (s : Sys) (b : Nat) : Option (Option Block) :=
  (s.state.running.or s.state.locking).bind fun txn => txn.record.event b

structure DataBlock (g : JournalGeometry) (s : Sys) (b : Nat) : Prop where
  lt : b < s.disk.size
  notLog : b ∉ g.blockMap
  freed : History.settled TxnRecord.event (s.ghost.hist.take s.ghost.logged) b = none
  staged : History.Untouched TxnRecord.event s.ghost.hist s.ghost.logged s.ghost.hist.length b
  active : s.activeEvent b = none

inductive Rely (g : JournalGeometry) : Sys → Sys → Prop
  | call {s} (c : OpCall) (hopen : s.ghost.closed = false) (hc : c.Allowed g s.disk.size) :
      Rely g s (s.call g c)
  | data {s} (b : Nat) (v : Block) (hb : s.DataBlock g b) : Rely g s (s.dataWrite b v)
  | flush {s} : Rely g s s.flush

inductive Start (g : JournalGeometry) : Sys → Sys → JournalIo Journal Unit → Prop
  | commit {s} (fuel : Nat) (now : Timestamp) (expired : Bool) (hopen : s.ghost.closed = false) :
      Start g s s ((commitOne g fuel now expired).bind fun _ => .ret ())
  | checkpoint {s} (fuel : Nat) (hopen : s.ghost.closed = false) :
      Start g s s ((runLazyCheckpoint g fuel).bind fun _ => .ret ())
  | unmount {s} (fuel : Nat) (now : Timestamp) (hopen : s.ghost.closed = false) :
      Start g s s.close (flushOnUnmount g fuel now)

def machine (g : JournalGeometry) : Machine (IoSig Block Journal) Sys := ⟨handle, Rely g⟩

def mount (w : World Block Journal) (hist : List TxnRecord) : Sys where
  world := w
  ghost := {
    hist := hist
    retired := hist.length
    logged := hist.length
    published := hist.length
    truth := fun b => some (w.disk.view b)
    snapshot := w.mem
    written := []
    closed := false }

abbrev Conf := Config (IoSig Block Journal) Fault Sys

def Reaches (g : JournalGeometry) (s : Sys) (c : Conf) : Prop :=
  (machine g).Reaches (Start g) ⟨s, none⟩ c

end Sys

end Ext4
