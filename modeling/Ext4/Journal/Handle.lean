import Ext4.Journal.State

namespace Ext4

structure Handle where
  tid : Tid
  credits : Nat
  remaining : Nat

namespace Handle

def grantCredits (h : Handle) (extra : Nat) : Handle :=
  { h with credits := h.credits + extra, remaining := h.remaining + extra }

def spendOneCredit (h : Handle) : Handle := { h with remaining := h.remaining - 1 }

end Handle

def extendBatchBlocks : Nat := 8

def hasCapacity (g : JournalGeometry) (txn : Transaction) (extra : Nat) : Bool :=
  txn.reservedMetadataBlocks extra + txn.nrRevokeBlocks g.tagLayout ≤ Journal.maxCredits g

inductive Admit where
  | waitRoom (tid : Tid)
  | waitSpace
  | admitted (tid : Tid)

def JournalState.admitCredits (g : JournalGeometry) (servicer : Bool) (credits : Nat) (st : JournalState) :
    Admit × JournalState :=
  match st.locking with
  | some locking => (.waitRoom locking.tid, st)
  | none =>
    let running := st.running.getD (.new st.nextTid)
    let st := { st with
      nextTid := if st.running.isNone then st.nextTid.next else st.nextTid
      running := some running }
    if hasCapacity g running credits = false then (.waitRoom running.tid, st)
    else if servicer ∧
        g.freeLogBlocks st.head st.tailBlock < Journal.reservationFootprint g running credits then
      (.waitSpace, st)
    else
      (.admitted running.tid, { st with running := some { running with
        tUpdates := running.tUpdates + 1
        outstandingCredits := running.outstandingCredits + credits } })

def Journal.admitCredits (g : JournalGeometry) (servicer : Bool) (credits : Nat) (j : Journal) :
    Except Fault Admit × Journal :=
  if Journal.maxCredits g < credits then
    (.error (.error .enospc "reservation exceeds journal capacity"), j)
  else if j.aborted then (.error (.error .eio "journal aborted"), j)
  else
    let (outcome, st) := j.state.admitCredits g servicer credits
    (.ok outcome, { j with state := st })

def journalStart (tid : Tid) (credits : Nat) : Handle := ⟨tid, credits, credits⟩

def JournalState.journalStop (h : Handle) (st : JournalState) : JournalState :=
  match st.activeTxn h.tid with
  | none => st
  | some txn => st.setActive { txn with
      tUpdates := txn.tUpdates - 1
      outstandingCredits := txn.outstandingCredits - h.remaining }

inductive ExtendOutcome where
  | granted
  | needsRestart
  deriving DecidableEq

def tryGrowReservation (g : JournalGeometry) (h : Handle) (txn : Transaction) (extra : Nat) :
    ExtendOutcome × Handle × Transaction :=
  if hasCapacity g txn extra then
    (.granted, h.grantCredits extra, { txn with outstandingCredits := txn.outstandingCredits + extra })
  else (.needsRestart, h, txn)

def chargeFreshCapture (g : JournalGeometry) (h : Handle) (txn : Transaction) :
    Except Fault Unit × Handle × Transaction :=
  let spend (h : Handle) (txn : Transaction) : Except Fault Unit × Handle × Transaction :=
    (.ok (), h.spendOneCredit, txn.consumeReservedCredit)
  if h.remaining = 0 then
    match tryGrowReservation g h txn extendBatchBlocks with
    | (.granted, h, txn) => spend h txn
    | (.needsRestart, _, _) =>
      match tryGrowReservation g h txn 1 with
      | (.granted, h, txn) => spend h txn
      | (.needsRestart, _, _) =>
        (.error (.error .enospc "operation captured more metadata than a single journal transaction holds"), h, txn)
  else spend h txn

def JournalState.journalExtend (g : JournalGeometry) (h : Handle) (extra : Nat) (st : JournalState) :
    Except Fault ExtendOutcome × Handle × JournalState :=
  if (st.locking.filter fun txn => txn.tid = h.tid).isSome then (.ok .needsRestart, h, st)
  else match st.running with
    | none => (.error (.error .eio "journal_extend without a running transaction"), h, st)
    | some running =>
      let (outcome, h, running) := tryGrowReservation g h running extra
      (.ok outcome, h, { st with running := some running })

def JournalState.tryReserveNext (g : JournalGeometry) (h : Handle) (need : Nat) (st : JournalState) :
    Except Fault ExtendOutcome × Handle × JournalState :=
  if need ≤ h.remaining then (.ok .granted, h, st)
  else if (st.locking.filter fun txn => txn.tid = h.tid).isSome then (.ok .needsRestart, h, st)
  else match st.running with
    | none => (.error (.error .eio "try_reserve_next without a running transaction"), h, st)
    | some running =>
      let (outcome, h, running) := tryGrowReservation g h running (need - h.remaining)
      (.ok outcome, h, { st with running := some running })

def JournalState.extendReservationForBurst (g : JournalGeometry) (h : Handle) (extra : Nat)
    (st : JournalState) : Except Fault Unit × Handle × JournalState :=
  if (st.locking.filter fun txn => txn.tid = h.tid).isSome then
    (.error (.error .enospc "cannot extend a transaction locked for commit"), h, st)
  else match st.running with
    | none =>
      (.error (.error .eio "extend_reservation_for_burst without a running transaction"), h, st)
    | some running =>
      let (outcome, h, running) := tryGrowReservation g h running extra
      let res : Except Fault Unit := match outcome with
        | .granted => .ok ()
        | .needsRestart =>
          .error (.error .efbig "htree degrade exceeds one journal transaction's capacity")
      (res, h, { st with running := some running })

def outlived : Fault := .error .eio "journal handle outlived its transaction"

def settleCapture (g : JournalGeometry) (h : Handle) (st : JournalState) (fresh : Bool)
    (generation : Nat) (txn : Transaction) : Except Fault Nat × Handle × JournalState :=
  if fresh then
    let (charged, h, txn) := chargeFreshCapture g h txn
    (charged.map fun _ => generation, h, st.setActive txn)
  else (.ok generation, h, st.setActive txn)

def JournalState.captureSeed (st : JournalState) (tid : Tid) (bid : Nat) : Option Block :=
  (if (st.running.filter fun txn => txn.tid = tid).isSome then
      st.locking.bind fun locked => locked.bufferBytes bid
    else none).or ((st.uncheckpointed bid).map UncheckpointedImage.image)

def JournalState.getWriteAccess (g : JournalGeometry) (h : Handle) (bid : Nat)
    (device : Option Block) (st : JournalState) : Except Fault Nat × Handle × JournalState :=
  match st.activeTxn h.tid with
  | none => (.error outlived, h, st)
  | some txn =>
    match txn.captureWrite bid (st.captureSeed h.tid bid) device with
    | (.error e, txn) => (.error e, h, st.setActive txn)
    | (.ok generation, captured) =>
      settleCapture g h st (!txn.isCaptured bid) generation captured

def JournalState.getCreateAccess (g : JournalGeometry) (h : Handle) (bid : Nat)
    (st : JournalState) : Except Fault Nat × Handle × JournalState :=
  match st.activeTxn h.tid with
  | none => (.error outlived, h, st)
  | some txn =>
    let (generation, captured) := txn.captureCreate bid
    settleCapture g h st (!txn.isCaptured bid) generation captured

def JournalState.patch (tid : Tid) (bid generation : Nat) (f : Block → Block) (st : JournalState) :
    Except Fault JournalState :=
  match st.activeTxn tid with
  | none => .error outlived
  | some txn => (txn.applyPatch bid generation f).map st.setActive

def JournalState.discharge (tid : Tid) (start count : Nat) (st : JournalState) :
    Except Fault JournalState :=
  match st.activeTxn tid with
  | none => .error outlived
  | some txn =>
    let bids := List.range' start count
    let st := st.setActive (bids.foldl Transaction.forgetBlock txn)
    .ok { st with uncheckpointed := fun b => if b ∈ bids then none else st.uncheckpointed b }

def JournalState.pinFreedRun (tid : Tid) (start count : Nat) (st : JournalState) :
    Except Fault JournalState :=
  if count = 0 then .ok st
  else match st.activeTxn tid with
    | none => .error outlived
    | some txn =>
      let run := match st.pinnedFrees.get start with
        | some run => ⟨max run.count count, txn.tid⟩
        | none => ⟨count, txn.tid⟩
      .ok { st with pinnedFrees := st.pinnedFrees.insert start run }

def JournalState.registerOrderedData (tid : Tid) (ino len : Nat) (st : JournalState) :
    Except Fault JournalState :=
  match st.activeTxn tid with
  | none => .error outlived
  | some txn => .ok (st.setActive (txn.registerOrderedData ino len))

def JournalState.requestCommitFor (target : Tid) (st : JournalState) : JournalState :=
  if st.commitRequest.any fun existing => existing.geq target then st
  else { st with commitRequest := some target }

def JournalState.newest (st : JournalState) (bid : Nat) : Option Block :=
  ((st.running.bind fun txn => txn.bufferBytes bid).or (st.locking.bind fun txn => txn.bufferBytes bid)).or
      ((st.uncheckpointed bid).map UncheckpointedImage.image)

def readMetadataBlock (d : Disk Block) (st : JournalState) (bid : Nat) : Option Block :=
  (st.newest bid).or (d.read bid)

end Ext4
