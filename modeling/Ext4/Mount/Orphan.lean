import Ext4.Mount.State

namespace Ext4

namespace OrphanChain

inductive Splice where
  | head (successor : Option Nat)
  | middle (predecessor : Nat) (successor : Option Nat)
  deriving DecidableEq

def spliceAfter : Nat → OrphanChain → Nat → Option Splice
  | _, [], _ => none
  | pred, x :: rest, ino =>
    if x = ino then some (.middle pred rest.head?) else spliceAfter x rest ino

def spliceFor (chain : OrphanChain) (ino : Nat) : Option Splice :=
  match chain with
  | [] => none
  | x :: rest => if x = ino then some (.head rest.head?) else spliceAfter x rest ino

end OrphanChain

namespace Mount

variable (cfg : Config)

def orphanAdd (ino : Nat) : MountOp (Option Nat) := do
  let m ← Op.get
  if m.fs.handle.isNone then Op.ret none
  else
    match m.chain.successorOf ino with
    | some next => Op.ret next
    | none => do
      onFs (Fs.capturePatch cfg.geometry SuperBlock.superblockBid (m.fs.sb.patchInto (some ino)))
      Op.modify fun m =>
        { m with
          fs := m.fs.setSb { m.fs.sb with lastOrphan := some ino }
          chain := ino :: m.chain }
      Op.ret m.fs.sb.lastOrphan

def orphanAddIfAbsent (ino : Nat) : MountOp Unit := do
  let m ← Op.get
  if m.fs.handle.isNone then Op.ret ()
  else if (m.chain.successorOf ino).isSome then Op.ret ()
  else
    let _ ← orphanAdd cfg ino
    Op.ret ()

def orphanDel (ino : Nat) : MountOp Unit := do
  let m ← Op.get
  match m.chain.spliceFor ino with
  | none => Op.ret ()
  | some splice =>
    match splice with
    | .head successor =>
      onFs (Fs.capturePatch cfg.geometry SuperBlock.superblockBid (m.fs.sb.patchInto successor))
      Op.modify fun m => { m with fs := m.fs.setSb { m.fs.sb with lastOrphan := successor } }
    | .middle predecessor successor =>
      onFs (Fs.journalPatchDtime cfg.table cfg.geometry predecessor (successor.getD 0))
    Op.modify fun m => { m with chain := m.chain.erase ino }

def persistAsOrphan (ino : Nat) (link : Option Nat) : MountOp Unit := do
  updateDesc ino fun desc => { desc with dtime := .orphanNext link }
  writeBackInodeDesc cfg ino

end Mount

end Ext4
