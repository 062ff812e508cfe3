import LanguageRuntime.Gc.LedgerTheorems

/-!
# The root cells stay in place

The heap rewrites the cells of its root providers, but it neither adds nor drops one: however a
public operation ends, the mutator finds as many cells as it had, in the same order.
-/

namespace LanguageRuntime.Gc

open LanguageRuntime LanguageRuntime.Library

/-- The root providers visit `n` cells. -/
def Heap.Cells (n : ℕ) (h : Heap) : Prop := h.rootCells.length = n

section Cells

variable {n : ℕ}

/-- A change of everything but the root cells. -/
theorem cells_modify {f : Heap → Heap} (hf : ∀ h, (f h).rootCells = h.rootCells) :
    Preserves (Heap.Cells n) (modify f : HeapM PUnit) := by
  refine .modify fun h hh => ?_
  rw [Heap.Cells, hf h]
  exact hh

/-! ## Collections -/

theorem scanNextMarkObject_cells (kind : CollectionKind) (worklist : List ObjectId) :
    Preserves (Heap.Cells n) (scanNextMarkObject kind worklist) := by
  induction worklist with
  | nil => exact .pure _
  | cons id worklist ih =>
    refine .bind (.query _) fun found => .ite ih (.ite ih ?_)
    exact .bind (cells_modify fun _ => rfl) fun _ => .bind (.query _) fun _ => .pure _

theorem drainMarkWorklist_cells (kind : CollectionKind) (worklist : List ObjectId) :
    Preserves (Heap.Cells n) (drainMarkWorklist kind worklist) := by
  refine .bind .get fun h => ?_
  generalize h.objects.length + 1 = fuel
  induction fuel generalizing worklist with
  | zero => exact .pure _
  | succ fuel ih =>
    refine .bind (scanNextMarkObject_cells kind worklist) fun next => ?_
    cases next with
    | none => exact .pure _
    | some worklist => exact ih worklist

theorem markCollectionRoots_cells (kind : CollectionKind) (extraRoots : List Value) :
    Preserves (Heap.Cells n) (markCollectionRoots kind extraRoots) := by
  refine .bind (.query _) fun _ => .bind (.query _) fun worklist => ?_
  refine .bind (drainMarkWorklist_cells _ _) fun _ => .bind .get fun h => ?_
  generalize ([] : List ObjectId) = worklist
  generalize h.objects.length + 1 = fuel
  induction fuel generalizing worklist with
  | zero => exact .pure _
  | succ fuel ih =>
    refine .bind (.query _) fun next => ?_
    exact .bind (drainMarkWorklist_cells kind next.1) fun _ => .ite (ih []) (.pure _)

/-- A rewriting that throws has rewritten the cells up to the one it throws at. -/
theorem length_rewriteCells (f : Value → Except HeapError Value) (cells : List Value) :
    (rewriteCells f cells).1.length = cells.length := by
  induction cells with
  | nil => rfl
  | cons value cells ih =>
    unfold rewriteCells
    split
    · rfl
    · exact congrArg (· + 1) ih

theorem rewriteRoots_cells (f : Value → Except HeapError Value) (extraRoots : List Value) :
    Preserves (Heap.Cells n) (rewriteRoots f extraRoots) := by
  refine .get_bind fun h hh => ?_
  have hcells : (rewriteCells f h.rootCells).1.length = n := (length_rewriteCells f _).trans hh
  dsimp only
  rw [wp_bind, wp_set]
  split
  · exact hcells
  · rw [wp_bind, wp_modify]
    split
    · exact hcells
    · split
      · exact hcells
      · exact hcells

theorem recordRememberedObject_cells (id : ObjectId) :
    Preserves (Heap.Cells n) (recordRememberedObject id) := by
  refine .bind (.query _) fun _ => .guard (cells_modify fun h => ?_)
  split
  · rfl
  · rfl

theorem recordPromotedObjectEdges_cells (promotedSlots : List ℕ) :
    Preserves (Heap.Cells n) (recordPromotedObjectEdges promotedSlots) := by
  induction promotedSlots with
  | nil => exact .pure _
  | cons slot promotedSlots ih =>
    refine .bind .get fun h => ?_
    dsimp only
    split
    · refine .guard (.bind (.query _) fun _ => ?_)
      exact .ite (.bind (recordRememberedObject_cells _) fun _ => ih) ih
    · exact .bind (.throw _) fun _ => ih

theorem pruneRememberedSet_cells : Preserves (Heap.Cells n) pruneRememberedSet :=
  .bind (.query _) fun _ => cells_modify fun _ => rfl

theorem rewriteReferences_cells (forwarding : ForwardingTable) (movedObjects : List (Option Object))
    (extraRoots : List Value) :
    Preserves (Heap.Cells n) (rewriteReferences forwarding movedObjects extraRoots) :=
  .bind .get fun _ => .bind (rewriteRoots_cells _ _) fun _ => .bind (.query _) fun _ => .pure _

theorem compactMarkedObjects_cells (kind : CollectionKind) (extraRoots : List Value) :
    Preserves (Heap.Cells n) (compactMarkedObjects kind extraRoots) := by
  refine .bind (.query _) fun _ => .bind (rewriteReferences_cells _ _ _) fun _ => ?_
  refine .bind (.query _) fun _ => .bind (.query _) fun _ => .bind (.query _) fun _ => ?_
  refine .bind (.query _) fun _ => .bind (cells_modify fun _ => rfl) fun _ => ?_
  refine .bind (recordPromotedObjectEdges_cells _) fun _ => .bind pruneRememberedSet_cells fun _ => ?_
  exact .bind (.query _) fun _ => .pure _

/-! ## Incremental marking -/

theorem incrementalMarkLoop_cells (budget : ℕ) (worklist : List ObjectId) :
    Preserves (Heap.Cells n) (incrementalMarkLoop budget worklist) := by
  induction budget generalizing worklist with
  | zero => exact .pure _
  | succ budget ih =>
    refine .bind (scanNextMarkObject_cells _ _) fun next => ?_
    cases next with
    | none => exact .bind (cells_modify fun _ => rfl) fun _ => .pure _
    | some worklist =>
      refine .bind (cells_modify fun _ => rfl) fun _ => ?_
      exact .bind (ih worklist) fun _ => .pure _

theorem finishIncrementalMarkingLiveness_cells (extraRoots : List Value) :
    Preserves (Heap.Cells n) (finishIncrementalMarkingLiveness extraRoots) := by
  refine .bind .get fun h => .guard (.bind (.query _) fun _ => ?_)
  refine .bind (cells_modify fun _ => rfl) fun _ => .bind (cells_modify fun _ => rfl) fun _ => ?_
  exact .bind (markCollectionRoots_cells _ _) fun _ => .query _

theorem finishIncrementalMarkingImpl_cells (extraRoots : List Value) :
    Preserves (Heap.Cells n) (finishIncrementalMarkingImpl extraRoots) :=
  .bind (finishIncrementalMarkingLiveness_cells _) fun _ => compactMarkedObjects_cells _ _

/-! ## Incremental compaction -/

theorem prepareIncrementalCompactionFromMarked_cells :
    Preserves (Heap.Cells n) prepareIncrementalCompactionFromMarked := by
  have hput : KeptByRewrites (Heap.Cells n) := fun hh _ _ => hh
  refine .bind (.query _) fun _ => .bind .get fun _ => ?_
  refine .bind (sweepWeakRefs_preserves hput _) fun _ => .bind (cells_modify fun _ => rfl) fun _ => ?_
  refine .bind (.query _) fun _ => .bind (cells_modify fun _ => rfl) fun _ => .bind .get fun _ => ?_
  refine .bind (sweepEphemerons_preserves hput _) fun _ => ?_
  refine .bind (cells_modify fun _ => rfl) fun _ => .bind (.query _) fun _ => ?_
  refine .bind (cells_modify fun _ => rfl) fun _ => .bind (cells_modify fun _ => rfl) fun _ => ?_
  exact .bind (cells_modify fun _ => rfl) fun _ => .query _

theorem incrementalCompactEntry_cells (c : IncrementalCompaction)
    (entry : IncrementalCompactionEntry) (extraRoots : List Value) :
    Preserves (Heap.Cells n) (incrementalCompactEntry c entry extraRoots) := by
  refine .bind (.query _) fun found => .get_bind fun h hh => ?_
  refine wp_ite (fun _ => (wp_bind _ _).mpr hh) fun _ => ?_
  refine wp_ite (fun _ => (wp_bind _ _).mpr hh) fun _ => ?_
  refine wp_ite (fun _ => (wp_bind _ _).mpr hh) fun _ => ?_
  refine wp_ite (fun _ => (wp_bind _ _).mpr hh) fun _ => ?_
  have hmoved : (h.moveEntry c entry found.2).Cells n := hh
  rw [wp_bind, wp_set]
  refine Preserves.bind .get (fun _ => .bind (rewriteRoots_cells _ _) fun _ => ?_) _ hmoved
  refine .bind (cells_modify fun _ => rfl) fun _ => ?_
  refine .ite (.bind (recordPromotedObjectEdges_cells _) fun _ => ?_) ?_
  all_goals exact .bind (.query _) fun _ => .pure _

theorem incrementalCompactStepImpl_cells (budget : ℕ) (extraRoots : List Value) :
    Preserves (Heap.Cells n) (incrementalCompactStepImpl budget extraRoots) := by
  have hloop : ∀ budget extraRoots,
      Preserves (Heap.Cells n) (incrementalCompactLoop budget extraRoots) := by
    intro budget
    induction budget with
    | zero => exact fun _ => .pure _
    | succ budget ih =>
      refine fun extraRoots => .bind .get fun h => ?_
      split
      · split
        · refine .bind (incrementalCompactEntry_cells _ _ _) fun cells => ?_
          exact .bind (ih cells) fun _ => .pure _
        · exact .pure _
      · exact .pure _
  refine .bind .get fun h => .guard (.bind (hloop _ _) fun result => ?_)
  exact .ite (.bind (.query _) fun _ => .pure _) (.pure _)

theorem finishIncrementalCompactionImpl_cells (extraRoots : List Value) :
    Preserves (Heap.Cells n) (finishIncrementalCompactionImpl extraRoots) := by
  have hfinalize : ∀ extraRoots,
      Preserves (Heap.Cells n) (finalizeIncrementalCompaction extraRoots) := by
    refine fun extraRoots => .bind .get fun _ => .guard (.bind (rewriteRoots_cells _ _) fun _ => ?_)
    refine .bind (.query _) fun _ => .bind (cells_modify fun _ => rfl) fun _ => ?_
    refine .bind pruneRememberedSet_cells fun _ => .bind (.query _) fun _ => ?_
    refine .bind (.query _) fun _ => .bind (cells_modify fun _ => rfl) fun _ => ?_
    exact .bind (.query _) fun _ => .pure _
  refine .bind .get fun h => ?_
  split
  · refine .ite (.bind (.map (incrementalCompactStepImpl_cells _ _)) fun cells => ?_) ?_
    all_goals exact hfinalize _
  · exact .throw _

theorem placeObject_cells (payload : Payload) : Preserves (Heap.Cells n) (placeObject payload) := by
  have hreserve : ∀ slots, Preserves (Heap.Cells n) (reserveStorageRun slots) := by
    refine fun slots => .get_bind fun h hh => ?_
    split
    · exact hh
    · exact wp_ite (fun _ => (wp_bind _ _).mpr hh) fun _ => hh
  refine .bind (.query _) fun _ => .bind (hreserve _) fun _ => .bind (.query _) fun _ => ?_
  exact .bind (cells_modify fun _ => rfl) fun _ => .pure _

theorem finishActiveCompaction_cells (extraRoots : List Value) :
    Preserves (Heap.Cells n) (finishActiveCompaction extraRoots) :=
  .bind .get fun _ => .ite (finishIncrementalCompactionImpl_cells _) (.pure _)

theorem collectImpl_cells (kind : CollectionKind) (extraRoots : List Value) :
    Preserves (Heap.Cells n) (collectImpl kind extraRoots) := by
  refine .bind (.bind (finishActiveCompaction_cells _) fun _ => .bind .get fun _ => .ite ?_ (.pure _))
    fun _ => ?_
  · exact finishIncrementalMarkingImpl_cells _
  · exact .bind (.query _) fun _ => .bind (markCollectionRoots_cells _ _) fun _ =>
      compactMarkedObjects_cells _ _

/-! ## Allocators -/

theorem collectBeforeAllocation_cells (operands : List Value) :
    Preserves (Heap.Cells n) (collectBeforeAllocation operands) :=
  .bind .get fun _ => .ite (collectImpl_cells .major _) (.pure _)

theorem allocateDescriptor_cells (descriptor : Except HeapError Descriptor) :
    Preserves (Heap.Cells n) (allocateDescriptor descriptor) := by
  refine .bind (.query _) fun _ => .bind (.bind .get fun _ => .ite ?_ (placeObject_cells _)) fun id => ?_
  · exact .bind (finishIncrementalCompactionImpl_cells _) fun _ => placeObject_cells _
  · refine .bind .get fun _ => .ite (.bind (collectImpl_cells .major _) fun cells => ?_) (.pure _)
    split
    · exact .pure _
    · exact .throw _

theorem allocate_cells (operands : List Value) (descriptor : List Value → Except HeapError Descriptor) :
    Preserves (Heap.Cells n) (do
      let operands ← collectBeforeAllocation operands
      allocateDescriptor (descriptor operands)) :=
  .bind (collectBeforeAllocation_cells _) fun _ => allocateDescriptor_cells _

theorem internString_cells (source : Value) : Preserves (Heap.Cells n) (internString source) := by
  refine .bind (.query _) fun _ => .bind (finishActiveCompaction_cells _) fun _ => ?_
  refine .bind (.query _) fun _ => .bind (.query _) fun _ => .bind (.query _) fun existing => ?_
  cases existing with
  | some existing =>
    refine .bind (.bind .get fun h => ?_) fun _ => .pure _
    split
    · exact .bind (.query _) fun _ => cells_modify fun _ => rfl
    · exact .pure _
  | none =>
    refine .bind (collectBeforeAllocation_cells _) fun _ => .bind (.query _) fun _ => ?_
    refine .bind (allocateDescriptor_cells _) fun _ => .bind (cells_modify fun _ => rfl) fun _ => ?_
    exact .bind (.query _) fun _ => .pure _

/-! ## Growth -/

theorem relocateForGrowth_cells (ownerId : ObjectId) (requiredWidth : ℕ) (growthRoots : List Value)
    (limitMessage worklistMessage : String) :
    Preserves (Heap.Cells n)
      (relocateForGrowth ownerId requiredWidth growthRoots limitMessage worklistMessage) := by
  refine .bind (.query _) fun found => .bind .get fun h => .guard ?_
  refine .bind (.query _) fun generation => .bind (.query _) fun _ => ?_
  refine .bind (rewriteReferences_cells _ _ _) fun rewritten => ?_
  refine .bind (.query _) fun _ => .bind (.query _) fun _ => .bind (.query _) fun _ => ?_
  refine .bind (.query _) fun _ => .bind (cells_modify fun _ => rfl) fun _ => ?_
  exact .bind (.query _) fun _ => .pure _

theorem ensureGrowthStorage_cells (ownerSlot currentWidth requiredWidth : ℕ)
    (growthRoots : List Value) {relocate : HeapM (List Value)}
    (hrelocate : Preserves (Heap.Cells n) relocate) :
    Preserves (Heap.Cells n)
      (ensureGrowthStorage ownerSlot currentWidth requiredWidth growthRoots relocate) := by
  refine .get_bind fun h hh => wp_ite (fun _ => hrelocate h hh) fun _ => ?_
  exact wp_ite (fun _ => hh) fun _ => hh

/-! ## Stores -/

theorem incrementalWriteBarrierBeforePublish_cells (owner : ObjectId) (value : Value) :
    Preserves (Heap.Cells n) (incrementalWriteBarrierBeforePublish owner value) := by
  refine .bind .get fun h => ?_
  split
  · refine .bind (.query _) fun _ => .bind (.query _) fun _ => .ite ?_ (.pure _)
    exact cells_modify fun _ => rfl
  · exact .pure _

theorem recordWriteBarrierIfNeeded_cells (owner : ObjectId) (value : Value) :
    Preserves (Heap.Cells n) (recordWriteBarrierIfNeeded owner value) := by
  unfold recordWriteBarrierIfNeeded
  split
  · refine .bind (.query _) fun _ => .bind (.query _) fun _ => .ite ?_ (.pure _)
    exact .bind (recordRememberedObject_cells _) fun _ => .pure _
  · exact .pure _

theorem recordMapWriteBarrierIfNeeded_cells (owner : ObjectId) (insertedKey : Option Value)
    (value : Value) : Preserves (Heap.Cells n) (recordMapWriteBarrierIfNeeded owner insertedKey value) := by
  have hrest : ∀ youngKey : Bool, Preserves (Heap.Cells n) (do
      let youngValue ← HeapM.query (·.refersToYoung value)
      if youngKey || youngValue then
        recordRememberedObject owner
        return true
      return false) := fun _ => .bind (.query _) fun _ =>
    .ite (.bind (recordRememberedObject_cells _) fun _ => .pure _) (.pure _)
  refine .bind (.query _) fun _ => .ite (.pure _) ?_
  cases insertedKey with
  | some key => exact .bind (.query _) hrest
  | none => exact .bind (.pure _) hrest

theorem setPayload_cells (slot : ℕ) (descriptor : Descriptor) :
    Preserves (Heap.Cells n) (modify (·.setPayload slot descriptor) : HeapM PUnit) := by
  refine cells_modify fun h => ?_
  unfold Heap.setPayload
  split
  · rfl
  · rfl

theorem mirrorIntoShadow_cells (id : ObjectId)
    (update : Heap → IncrementalCompaction → Payload → Except HeapError Payload) :
    Preserves (Heap.Cells n) (mirrorIntoShadow id update) := by
  refine .bind .get fun h => ?_
  split
  · refine .bind (.query _) fun _ => .bind (.query _) fun _ => .bind (.query _) fun _ => ?_
    exact cells_modify fun _ => rfl
  · exact .pure _

theorem publishField_cells (id : ObjectId) (slot : ℕ) (isRef : Bool) (value : Value)
    (payload : Payload) (mirror : Heap → IncrementalCompaction → Payload → Except HeapError Payload)
    (mutationRoots : List Value) :
    Preserves (Heap.Cells n) (publishField id slot isRef value payload mirror mutationRoots) := by
  have hbarriers : Preserves (Heap.Cells n) (fieldBarriers isRef id value) :=
    .ite (.bind (incrementalWriteBarrierBeforePublish_cells _ _) fun _ =>
      recordWriteBarrierIfNeeded_cells _ _) (.pure _)
  refine .bind hbarriers fun _ => .bind (.query _) fun _ => .bind (setPayload_cells _ _) fun _ => ?_
  refine .bind (mirrorIntoShadow_cells _ _) fun _ => .bind .get fun _ => .ite ?_ (.pure _)
  exact .bind (collectImpl_cells _ _) fun _ => .pure _

theorem publishMapEntry_cells (ownerId : ObjectId) (existing : Option ℕ) (key value : Value) :
    Preserves (Heap.Cells n) (publishMapEntry ownerId existing key value) := by
  refine .bind (.query _) fun _ => .bind (.query _) fun key => .bind (.query _) fun value => ?_
  refine .bind (incrementalWriteBarrierBeforePublish_cells _ _) fun _ => ?_
  refine .bind (incrementalWriteBarrierBeforePublish_cells _ _) fun _ => ?_
  refine .bind (recordMapWriteBarrierIfNeeded_cells _ _ _) fun _ => ?_
  refine .bind (.query _) fun _ => .bind (.query _) fun _ => .bind (.query _) fun _ => ?_
  refine .bind (setPayload_cells _ _) fun _ => .bind (.query _) fun _ => ?_
  refine .bind (mirrorIntoShadow_cells _ _) fun _ => .bind .get fun _ => .ite ?_ ?_
  · exact .bind (collectImpl_cells _ _) fun _ => .pure _
  · exact .bind (.query _) fun _ => .query _

theorem storeMapEntry_cells (id : ObjectId) (key value : Value) :
    Preserves (Heap.Cells n) (storeMapEntry id key value) := by
  have hprepare : Preserves (Heap.Cells n) (prepareMapInsertion id key value) :=
    .bind (finishActiveCompaction_cells _) fun _ => .bind (.query _) fun _ =>
      .bind (.query _) fun _ => .guard <| .bind (.query _) fun _ =>
        ensureGrowthStorage_cells _ _ _ _ <| .bind (.query _) fun _ => .bind (.query _) fun _ =>
          relocateForGrowth_cells _ _ _ _ _
  refine .bind (.query _) fun existing => .bind (.query _) fun _ => .bind (.query _) fun _ => ?_
  refine .ite (.bind (.pure _) fun _ => .bind (.query _) fun _ => ?_)
    (.bind hprepare fun _ => .bind (.query _) fun _ => ?_)
  all_goals exact publishMapEntry_cells _ _ _ _

theorem publishBuilder_cells (ownerId : ObjectId) (slot capacity : ℕ) (bytes : List UInt8) :
    Preserves (Heap.Cells n) (publishBuilder ownerId slot capacity bytes) :=
  .bind (.query _) fun _ => .bind (setPayload_cells _ _) fun _ =>
    .bind (mirrorIntoShadow_cells _ _) fun _ => .query _

theorem builderAppend_cells (id : ObjectId) (source : Value) :
    Preserves (Heap.Cells n) (builderAppend id source) := by
  have hgrow : ∀ operands, Preserves (Heap.Cells n) (growBuilder operands) := by
    refine fun operands => .bind (finishActiveCompaction_cells _) fun _ => .bind (.query _) fun _ => ?_
    refine .bind (.query _) fun _ => .bind (.query _) fun _ => .bind (.query _) fun _ => ?_
    refine .bind (.query _) fun _ => .bind (.bind (.query _) fun _ => .guard ?_) fun _ => ?_
    · exact ensureGrowthStorage_cells _ _ _ _ <| .bind (.query _) fun _ =>
        relocateForGrowth_cells _ _ _ _ _
    · refine .bind (.query _) fun _ => .bind (.query _) fun _ => .bind (.query _) fun _ => ?_
      exact .bind (setPayload_cells _ _) fun _ => .pure _
  have hpublish : ∀ operands, Preserves (Heap.Cells n) (publishAppended operands) := fun operands =>
    .bind (.query _) fun _ => .bind (.query _) fun _ => .bind (.query _) fun _ =>
      .bind (.query _) fun _ => publishBuilder_cells _ _ _ _
  refine .bind (.query _) fun _ => .bind (.query _) fun _ => .bind (.query _) fun _ => ?_
  refine .bind (.query _) fun _ => .bind (.query _) fun _ => .bind (.query _) fun _ => ?_
  refine .bind (.query _) fun _ => .guard ?_
  exact .ite (.bind (hgrow _) hpublish) (.bind (.pure _) hpublish)

end Cells

/-! ## The operations -/

/-- However an operation ends, the mutator keeps the number of its root cells. -/
theorem run_cells (op : Operation) (n : ℕ) : Preserves (Heap.Cells n) op.run := by
  cases op with
  | allocatePair left right => exact .map (allocate_cells _ _)
  | allocateScalarArray length init => exact .map (allocate_cells _ _)
  | allocateRefArray length init => exact .map (.bind (.query _) fun _ => allocate_cells _ _)
  | allocateString bytes => exact .map (allocate_cells _ _)
  | allocateStringConcat left right =>
    exact .map (.bind (.query _) fun _ => .bind (.query _) fun _ =>
      .bind (collectBeforeAllocation_cells _) fun _ => .bind (.query _) fun _ =>
        .bind (.query _) fun _ => .guard (allocateDescriptor_cells _))
  | allocateStringSubstring source lo hi =>
    exact .map (.bind (.query _) fun _ => .bind (collectBeforeAllocation_cells _) fun _ =>
      .bind (.query _) fun _ => allocateDescriptor_cells _)
  | internString source => exact .map (internString_cells _)
  | allocateClosure l fn captures captureMap =>
    exact .map (.guard (.bind (.query _) fun _ => allocate_cells _ _))
  | allocateMap l keyIsRef valueIsRef => exact .map (allocate_cells _ _)
  | allocateWeak target =>
    exact .map (.bind (.query _) fun _ => .bind (.query _) fun _ => allocate_cells _ _)
  | allocateEphemeron key value valueIsRef =>
    exact .map (.bind (.query _) fun _ => allocate_cells _ _)
  | allocateBuilder => exact .map (allocate_cells _ _)
  | builderToString builder =>
    exact .map (.bind (.query _) fun _ => .bind (.query _) fun _ =>
      .bind (finishActiveCompaction_cells _) fun _ => .bind (collectBeforeAllocation_cells _) fun _ =>
        .bind (.query _) fun _ => .bind (.query _) fun _ => allocateDescriptor_cells _)
  | allocateRecord l fields refMap =>
    exact .map (.guard (.bind (.query _) fun _ => allocate_cells _ _))
  | allocateVariant l c fields caseRefMaps =>
    exact .map (.bind (.query _) fun _ => allocate_cells _ _)
  | setField id field value =>
    refine .bind (.bind (.query _) fun _ => .bind (.query _) fun _ => ?_) fun _ => .pure _
    exact publishField_cells _ _ _ _ _ _ _
  | arraySet id index value =>
    refine .bind (.bind (.query _) fun _ => .guard ?_) fun _ => .pure _
    exact publishField_cells _ _ _ _ _ _ _
  | refArraySet id index value =>
    refine .bind (.bind (.query _) fun _ => .bind (.query _) fun _ => .bind (.query _) fun _ =>
      .guard ?_) fun _ => .pure _
    exact publishField_cells _ _ _ _ _ _ _
  | mapSet id key value => exact .bind (storeMapEntry_cells _ _ _) fun _ => .pure _
  | recordSet id index value =>
    refine .bind (.bind (.query _) fun _ => .guard (.bind (.query _) fun _ => ?_)) fun _ => .pure _
    exact publishField_cells _ _ _ _ _ _ _
  | ephemeronSetValue id value =>
    refine .bind (.bind (.query _) fun _ => .guard (.bind (.query _) fun _ => ?_)) fun _ => .pure _
    exact publishField_cells _ _ _ _ _ _ _
  | builderAppend id source => exact .bind (builderAppend_cells _ _) fun _ => .pure _
  | builderClear id =>
    refine .bind (.bind (.query _) fun _ => .bind (.query _) fun _ => .bind (.query _) fun _ => ?_)
      fun _ => .pure _
    exact publishBuilder_cells _ _ _ _
  | makeHandle key value =>
    exact .bind (.bind (.query _) fun _ => cells_modify fun _ => rfl) fun _ => .pure _
  | releaseHandle key => exact .bind (cells_modify fun _ => rfl) fun _ => .pure _
  | moveHandle source destination => exact .bind (cells_modify fun _ => rfl) fun _ => .pure _
  | setStressConfig config => exact .bind (cells_modify fun _ => rfl) fun _ => .pure _
  | collect => exact .bind (collectImpl_cells _ _) fun _ => .pure _
  | collectMinor => exact .bind (collectImpl_cells _ _) fun _ => .pure _
  | startIncrementalMarking =>
    refine .bind (.bind .get fun h => .guard (.guard ?_)) fun _ => .pure _
    exact .bind (.query _) fun _ => .bind (.query _) fun _ => cells_modify fun _ => rfl
  | incrementalMarkStep budget =>
    refine .bind (.bind .get fun h => ?_) fun _ => .pure _
    split
    · exact .bind (incrementalMarkLoop_cells _ _) fun _ => .bind (.query _) fun _ => .pure _
    · exact .throw _
  | finishIncrementalMarking =>
    exact .bind (finishIncrementalMarkingImpl_cells _) fun _ => .pure _
  | finishIncrementalMarkingToIncrementalCompaction =>
    refine .bind (.bind (finishIncrementalMarkingLiveness_cells _) fun _ => ?_) fun _ => .pure _
    exact .bind (cells_modify fun _ => rfl) fun _ => prepareIncrementalCompactionFromMarked_cells
  | startIncrementalCompaction =>
    refine .bind (.bind .get fun h => .guard (.guard (.bind (.query _) fun _ => ?_))) fun _ => .pure _
    exact .bind (markCollectionRoots_cells _ _) fun _ => prepareIncrementalCompactionFromMarked_cells
  | incrementalCompactStep budget =>
    exact .bind (incrementalCompactStepImpl_cells _ _) fun _ => .pure _
  | finishIncrementalCompaction =>
    exact .bind (finishIncrementalCompactionImpl_cells _) fun _ => .pure _

end LanguageRuntime.Gc
