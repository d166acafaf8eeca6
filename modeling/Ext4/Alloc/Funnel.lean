import Ext4.Alloc.State
import Ext4.Journal.Accounting

namespace Ext4

def journalDropped : Fault := .error .eio "journal dropped while a handle was open"

def ioError : Fault := .error .eio ""

structure WriteAccess where
  live : Option (Nat × Nat)

def WriteAccess.isLive (access : WriteAccess) : Bool := access.live.isSome

def keepOnError (h : Handle) (st : JournalState) :
    Except Fault JournalState → Except Fault Unit × Handle × JournalState
  | .ok st => (.ok (), h, st)
  | .error e => (.error e, h, st)

def JournalState.requestCommitOfRunning (st : JournalState) : JournalState :=
  match st.committableRunning with
  | some txn => st.requestCommitFor txn.tid
  | none => st

namespace Fs

variable {α : Type}

def underHandle (inert : α)
    (f : Handle → JournalState → Except Fault α × Handle × JournalState) : FsOp α := fun fs =>
  match fs.handle, fs.journal with
  | none, _ => (.ok inert, fs)
  | some _, none => (.error journalDropped, fs)
  | some h, some j =>
    match f h j.state with
    | (r, h, st) => (r, { fs with handle := some h, journal := some (j.withState st) })

def getWriteAccess (g : JournalGeometry) (bid : Nat) : FsOp WriteAccess := fun fs =>
  underHandle ⟨none⟩ (fun h st =>
    match st.getWriteAccess g h bid (fs.device bid) with
    | (r, h, st) => (r.map fun generation => ⟨some (bid, generation)⟩, h, st)) fs

def getCreateAccess (g : JournalGeometry) (bid : Nat) : FsOp WriteAccess :=
  underHandle ⟨none⟩ fun h st =>
    match st.getCreateAccess g h bid with
    | (r, h, st) => (r.map fun generation => ⟨some (bid, generation)⟩, h, st)

def patch (access : WriteAccess) (f : Block → Block) : FsOp Unit :=
  match access.live with
  | none => Op.ret ()
  | some (bid, generation) =>
    underHandle () fun h st => keepOnError h st (st.patch h.tid bid generation f)

def capturePatch (g : JournalGeometry) (bid : Nat) (f : Block → Block) : FsOp Unit := do
  let access ← getWriteAccess g bid
  patch access f

def discharge (start count : Nat) : FsOp Unit :=
  underHandle () fun h st => keepOnError h st (st.discharge h.tid start count)

def pinFreedRun (start count : Nat) : FsOp Unit :=
  underHandle () fun h st => keepOnError h st (st.pinFreedRun h.tid start count)

def tryReserveNext (g : JournalGeometry) (need : Nat) : FsOp ExtendOutcome :=
  underHandle .granted fun h st => st.tryReserveNext g h need

def abortJournalOnFsError : FsOp Unit := Op.modify fun fs =>
  match fs.handle with
  | none => fs
  | some _ =>
    { fs with journal := fs.journal.map fun j =>
        { j with aborted := true, sbError := sErrnoErrorMarker } }

def requestCommitOfRunning : FsOp Unit := Op.modify fun fs =>
  { fs with journal := fs.journal.map fun j => j.withState j.state.requestCommitOfRunning }

def pinnedFreesSnapshot (fs : Fs) : List (Nat × Nat) :=
  match fs.journal with
  | none => []
  | some j => j.state.pinnedFrees.entries.map fun e => (e.1, e.2.count)

def readMetadataBlock (bid : Nat) : FsOp Block := fun fs =>
  match fs.image bid with
  | some block => (.ok block, fs)
  | none => (.error ioError, fs)

def writeDevice (bid : Nat) (block : Block) : FsOp Unit := fun fs =>
  match fs.device bid with
  | some _ => (.ok (), { fs with device := Function.update fs.device bid (some block) })
  | none => (.error ioError, fs)

end Fs

end Ext4
