import Ext4.Alloc.Specimen
import Ext4.Mount.Namespace

namespace Ext4

namespace Mount

open Bytes

structure Entry where
  name : Name
  ino : Nat
  type : DirEntryFileType

def sampleTable : InodeTable := ⟨256, none, InodeTable.size_256, InodeTable.dvd_256⟩

def sampleConfig : Config := ⟨Specimen.wide, sampleTable, none⟩

def sampleDesc (type : InodeType) (linkCount : Nat) : InodeDesc :=
  InodeDesc.new type 0o755 0 0 linkCount 0 .zero .extentRoot

def fillPage (self parent : Nat) (entries : List Entry) : Block :=
  let dir : Directory := ⟨fun _ => some (DirBlock.dotDots 4096 self parent (zeros 4096)), 4096, none⟩
  let add (dir : Directory) (e : Entry) : Directory :=
    match dir.findDirSlot e.name.length with
    | .ok (some slot) => ((dir.addEntry slot e.name e.ino e.type).toOption).getD dir
    | _ => dir
  ((entries.foldl add dir).pages 0).getD (zeros 4096)

def sampleDir (self parent block linkCount : Nat) (entries : List Entry) : Inode where
  desc := { sampleDesc .dir linkCount with size := 4096, sectorCount := 8 }
  dirty := false
  tree := some ⟨inlineLeafRoot [⟨0, 1, block, .written⟩], 8, false⟩
  pages := fun idx => if idx = 0 then some (fillPage self parent entries) else none
  csumSeed := none

def sampleFile (linkCount : Nat) : Inode where
  desc := sampleDesc .file linkCount
  dirty := false
  tree := some .empty
  pages := fun _ => none
  csumSeed := none

def nameA : Name := [0x61]

def nameB : Name := [0x62]

def sampleVolume (credits : Nat) : Specimen := ⟨64, 30, credits, by decide, by decide, Specimen.bits_64⟩

def sampleMount (credits : Nat) (chain : OrphanChain) (disk : Nat → Option (Option Block))
    (inodes : Nat → Option Inode) : Mount :=
  let fs := (sampleVolume credits).fs Specimen.wide
  { fs := { fs with
      sb := { fs.sb with lastOrphan := chain.head? }
      device := fun b => (disk b).getD (fs.device b) }
    chain := chain
    inodes := inodes
    nextGeneration := 1 }

end Mount

end Ext4
