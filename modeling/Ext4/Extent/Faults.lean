import Ext4.Alloc.Search
import Ext4.Extent.Tree

namespace Ext4

open Op Bytes

variable {n : Nat}

def Fault.tooBig : Fault → Bool
  | .error .efbig _ => true
  | _ => false

-- everything but `EFBIG`
abbrev Modest {σ α : Type} (m : Op σ Fault α) : Prop := Raises (fun e => e.tooBig = false) m

abbrev Tame {σ α : Type} (R : σ → σ → Prop) (m : Op σ Fault α) : Prop := Obeys R (fun e => e.tooBig = false) m

theorem tooBig_absurd {e : Fault} {p : Prop} (hno : e.tooBig = false) (hyes : e.tooBig = true) : p := by
  rw [hno] at hyes
  cases hyes

theorem Modest.silent {σ α : Type} {op : Op σ Fault α} (h : Modest op) (s : σ) {C : σ → Prop} :
    op.Ends s (fun _ _ => True) fun e s' => e.tooBig = true → C s' :=
  (h s).mono (fun _ _ h => h) fun _ _ he => tooBig_absurd he

section Journal

variable {g : JournalGeometry} {h : Handle} {st : JournalState} {e : Fault}

theorem captureFaults_modest (he : e ∈ captureFaults) : e.tooBig = false := by
  simp only [captureFaults, List.mem_cons, List.not_mem_nil, or_false] at he
  rcases he with rfl | rfl | rfl | rfl | rfl | rfl <;> rfl

theorem getCreateAccess_modest {bid : Nat} (he : (st.getCreateAccess g h bid).1 = .error e) :
    e.tooBig = false := by
  unfold JournalState.getCreateAccess at he
  split at he
  · cases he
    rfl
  · exact captureFaults_modest (JournalState.settleCapture_fault he)

theorem tryReserveNext_modest {need : Nat} (he : (st.tryReserveNext g h need).1 = .error e) :
    e.tooBig = false := by
  unfold JournalState.tryReserveNext at he
  split at he
  · cases he
  · split at he
    · cases he
    · split at he
      · cases he
        rfl
      · cases he

end Journal

namespace Fs

variable {α : Type} (g : JournalGeometry) {e : Fault} {sb : SuperBlock}

theorem getWriteAccess_modest (bid : Nat) : Modest (getWriteAccess g bid) :=
  .mono (getWriteAccess_raises g bid) fun _ he => captureFaults_modest he

theorem getCreateAccess_modest (bid : Nat) : Modest (getCreateAccess g bid) :=
  underHandle_raises _ rfl fun _ _ _ he => Ext4.getCreateAccess_modest (map_error he)

theorem patch_modest (access : WriteAccess) (f : Block → Block) : Modest (patch access f) :=
  .mono (patch_raises access f) fun _ he => captureFaults_modest he

theorem capturePatch_modest (bid : Nat) (f : Block → Block) : Modest (capturePatch g bid f) :=
  .bind (getWriteAccess_modest g bid) fun access => patch_modest access f

theorem discharge_modest (start count : Nat) : Modest (discharge start count) := by
  refine keepOnError_raises rfl fun h st e he => ?_
  unfold JournalState.discharge at he
  split at he
  · cases he
    rfl
  · cases he

theorem pinFreedRun_modest (start count : Nat) : Modest (pinFreedRun start count) := by
  refine keepOnError_raises rfl fun h st e he => ?_
  unfold JournalState.pinFreedRun at he
  split at he
  · cases he
  · split at he
    · cases he
      rfl
    · cases he

theorem tryReserveNext_modest (need : Nat) : Modest (tryReserveNext g need) :=
  underHandle_raises _ rfl fun _ _ _ he => Ext4.tryReserveNext_modest he

theorem registerOrderedData_modest (ino len : Nat) :
    Modest (underHandle () fun h st => keepOnError h st (st.registerOrderedData h.tid ino len)) := by
  refine keepOnError_raises rfl fun h st e he => ?_
  unfold JournalState.registerOrderedData at he
  split at he
  · cases he
    rfl
  · cases he

theorem readMetadataBlock_modest (bid : Nat) : Modest (readMetadataBlock bid) := by
  intro fs
  unfold Op.Ends readMetadataBlock
  cases fs.image bid with
  | some block => trivial
  | none => exact rfl

theorem writeDevice_modest (bid : Nat) (block : Block) : Modest (writeDevice bid block) := by
  intro fs
  unfold Op.Ends writeDevice
  cases fs.device bid with
  | some block => trivial
  | none => exact rfl

theorem updateSb_modest {update : SuperBlock → Except Fault SuperBlock}
    (hup : ∀ sb e, update sb = .error e → e.tooBig = false) : Modest (updateSb g update) :=
  .bind .get fun fs => .bind (.ofExcept (hup fs.sb)) fun _ => .bind (.modify _) fun _ =>
    .bind .get fun _ => capturePatch_modest g _ _

theorem decFreeBlocks_modest (he : sb.decFreeBlocks n = .error e) :
    e.tooBig = false := by
  unfold SuperBlock.decFreeBlocks at he
  split at he
  · cases he
  · cases he
    rfl

theorem incFreeBlocks_modest (he : sb.incFreeBlocks n = .error e) :
    e.tooBig = false := by
  unfold SuperBlock.incFreeBlocks at he
  split at he
  · cases he
    rfl
  · split at he
    · cases he
      rfl
    · cases he

theorem publish_modest (group : BlockGroup) (access : WriteAccess) (bitmap : IdBitmap)
    (m : BlockGroupMetadata) : Modest (BlockGroup.publish g group access bitmap m) :=
  .bind (patch_modest access _) fun _ => capturePatch_modest g _ _

theorem groupFreeBlocks_modest (idx startBit count : Nat) :
    Modest (BlockGroup.freeBlocks g idx startBit count) := by
  refine .bind .get fun fs => ?_
  dsimp only
  split
  · exact .bind (.modify _) fun _ => .fail rfl
  · refine .bind (getWriteAccess_modest g _) fun access => .bind (.modify _) fun _ => ?_
    split
    · exact .fail rfl
    · exact .bind (.modify _) fun _ => .bind (publish_modest g _ _ _ _) fun _ => .ret _

theorem groupAllocBlocks_modest (idx count sbFreeBlocks : Nat) (pinnedFrees : List (Nat × Nat)) :
    Modest (BlockGroup.allocBlocks g idx count sbFreeBlocks pinnedFrees) := by
  refine .bind .get fun fs => .bind (getWriteAccess_modest g _) fun access => ?_
  split
  · refine .bind (.modify _) fun _ => ?_
    split
    · exact .fail rfl
    · exact .ret _
  · dsimp only
    split
    · exact .bind (.modify _) fun _ => .fail rfl
    · exact .bind (.modify _) fun _ => .bind (publish_modest g _ _ _ _) fun _ => .ret _

end Fs

section Tree

variable (g : JournalGeometry) {e : Fault} {iblock : Nat} {b : Buffer n} {block : Block}

theorem tryFrom_modest {raw : RawExtentHeader} (he : ExtentHeader.tryFrom raw = .error e) :
    e.tooBig = false := by
  unfold ExtentHeader.tryFrom at he
  split at he
  · cases he
    rfl
  · split at he
    · cases he
      rfl
    · split at he
      · cases he
        rfl
      · cases he

theorem parseLeafNode_modest (he : parseLeafNode block = .error e) : e.tooBig = false := by
  unfold parseLeafNode at he
  split at he
  next hparse =>
    cases he
    exact tryFrom_modest hparse
  · split at he
    · cases he
      rfl
    · split at he
      · cases he
        rfl
      · cases he

theorem parseInteriorNode_modest (he : parseInteriorNode block = .error e) : e.tooBig = false := by
  unfold parseInteriorNode at he
  split at he
  next hparse =>
    cases he
    exact tryFrom_modest hparse
  · split at he
    · cases he
      rfl
    · split at he
      · cases he
        rfl
      · cases he

theorem writeNode_modest (bid : Nat) (block : Block) : Modest (writeNode g bid block) := by
  refine .bind (Fs.getWriteAccess_modest g bid) fun access => .bind (Fs.patch_modest access _) fun _ => ?_
  split
  · exact .ret ()
  · exact Fs.writeDevice_modest bid block

theorem searchEntries_modest {header : ExtentHeader}
    (he : searchEntries header b iblock = .error e) : e.tooBig = false := by
  unfold searchEntries at he
  split at he
  · cases he
    rfl
  · split at he
    · split at he <;> cases he
    · split at he <;> cases he

theorem searchNode_modest (he : searchNode b iblock = .error e) : e.tooBig = false := by
  unfold searchNode at he
  split at he
  next herr =>
    cases he
    exact tryFrom_modest herr
  · exact searchEntries_modest he

end Tree

end Ext4
