import LanguageRuntime.Gc.Collect

/-!
# Incremental compaction

The phase that moves one object at a time (`start_incremental_compaction ..
finalize_incremental_compaction` of `src/gc/heap.cpp`): the plan, the partial forwarding of
identifiers, the shadow heap every mutation is mirrored into, and the differential check
against an atomic compaction of the shadow.
-/

namespace LanguageRuntime.Gc

open LanguageRuntime

/-! ## The plan -/

/-- The state of the planning loop of `prepare_incremental_compaction_from_marked`. -/
structure CompactionPlan where
  plan : List IncrementalCompactionEntry
  sourceIds : List (Option ObjectId)
  destinationGenerations : List ℕ
  destinationSlot : ℕ
deriving DecidableEq

/-- Plans the move of an object to the cursor, under the generation given. -/
def CompactionPlan.place (state : CompactionPlan) (sourceId : ObjectId) (sourceSlot : ℕ)
    (object : Object) (generation : ℕ) : CompactionPlan :=
  let destinationSlot := state.destinationSlot
  { plan := state.plan ++
      [⟨sourceId, sourceSlot, object.width, makeObjectId destinationSlot generation,
        destinationSlot⟩]
    sourceIds := state.sourceIds.set sourceSlot (some sourceId)
    destinationGenerations := state.destinationGenerations.set destinationSlot generation
    destinationSlot := destinationSlot + object.width }

namespace Heap

def planSlot (h : Heap) (state : CompactionPlan) (sourceSlot : ℕ) :
    Except HeapError CompactionPlan :=
  match h.objectAt sourceSlot with
  | none => .ok state
  | some object =>
    if !object.marked then .ok state
    else if h.objects.length < state.destinationSlot + object.width then
      .error (.logicError "incremental compaction plan exceeds heap storage")
    else
      state.place (h.currentId sourceSlot) sourceSlot object <$>
        destinationGeneration sourceSlot state.destinationSlot
          (state.destinationGenerations.getD state.destinationSlot 0)

def planIncrementalCompaction (h : Heap) : Except HeapError CompactionPlan :=
  (List.range h.objects.length).foldlM h.planSlot {
    plan := []
    sourceIds := List.replicate h.objects.length none
    destinationGenerations := h.generations
    destinationSlot := 0 }

end Heap

/-- The marked weak references, their dead targets cleared. -/
def sweepWeakRefs : List ObjectId → HeapM (List ObjectId)
  | [] => pure []
  | ownerId :: weakRefs => do
    let (slot, owner) ← HeapM.query (·.resolve ownerId)
    if !owner.marked then sweepWeakRefs weakRefs
    else
      match owner.payload with
      | .weakRef (.object target) =>
        let (_, targetObject) ← HeapM.query (·.resolve target)
        if !targetObject.marked then
          modify (·.putObject slot (owner.forwardWeakTarget fun _ => none))
      | _ => pure ()
      return ownerId :: (← sweepWeakRefs weakRefs)

/-- The marked ephemerons, cleared when their key is dead. -/
def sweepEphemerons : List ObjectId → HeapM (List ObjectId)
  | [] => pure []
  | ownerId :: ephemerons => do
    let (slot, owner) ← HeapM.query (·.resolve ownerId)
    if !owner.marked then sweepEphemerons ephemerons
    else
      match owner.payload with
      | .ephemeron (.object key) _ _ =>
        let (_, keyObject) ← HeapM.query (·.resolve key)
        if !keyObject.marked then
          modify (·.putObject slot (owner.forwardEphemeron fun _ => none))
      | _ => pure ()
      return ownerId :: (← sweepEphemerons ephemerons)

namespace Heap

/-- The identifiers of a registry whose objects are marked. -/
def markedEntries (h : Heap) {α : Type} (id : α → ObjectId) : List α → Except HeapError (List α)
  | [] => .ok []
  | entry :: entries => do
    let (_, object) ← h.resolve (id entry)
    let rest ← markedEntries h id entries
    return if object.marked then entry :: rest else rest

/-- Frees the unmarked objects and removes the marks of the others. -/
def sweepObjects (h : Heap) : Heap :=
  { h with objects := h.objects.map fun slot =>
      slot.bind fun o => if o.marked then some { o with marked := false } else none }

end Heap

/-- `prepare_incremental_compaction_from_marked`: plans the move of the marked objects, frees
the others and opens the phase with a shadow of the heap. -/
def prepareIncrementalCompactionFromMarked : HeapM Unit := do
  let planned ← HeapM.query Heap.planIncrementalCompaction
  let weakRefs ← sweepWeakRefs (← get).weakRefs
  modify fun h => { h with weakRefs := weakRefs }
  let internTable ← HeapM.query fun h => h.markedEntries InternEntry.canonical h.internTable
  modify fun h => { h with internTable := internTable }
  let ephemerons ← sweepEphemerons (← get).ephemerons
  modify fun h => { h with ephemerons := ephemerons }
  let rememberedSet ← HeapM.query fun h => h.markedEntries id h.rememberedSet
  modify fun h => { h with rememberedSet := rememberedSet }
  modify Heap.sweepObjects
  modify fun h => { h with phase := .compacting {
    plan := planned.plan
    cursor := 0
    forwarding := List.replicate h.objects.length none
    sourceIds := planned.sourceIds
    shadowObjects := h.objects
    shadowGenerations := h.generations
    shadowWeakRefs := h.weakRefs
    shadowInternTable := h.internTable
    shadowEphemerons := h.ephemerons } }
  HeapM.query (·.validateAfterCollection [])

def prepareIncrementalCompaction : HeapM Unit := do
  markCollectionRoots .major []
  prepareIncrementalCompactionFromMarked

def startIncrementalCompaction : HeapM Unit := do
  let h ← get
  if h.incrementalCompactionActive then
    throw (.logicError "incremental compaction cycle already active")
  if h.incrementalMarkingActive then
    throw (.logicError "incremental compaction cannot start during incremental marking")
  HeapM.query Heap.validateBeforeCollection
  prepareIncrementalCompaction

def finishIncrementalMarkingToIncrementalCompaction : HeapM Unit := do
  finishIncrementalMarkingLiveness []
  modify fun h => { h with phase := .idle }
  prepareIncrementalCompactionFromMarked

/-! ## Partial forwarding -/

namespace Heap

/-- `rewrite_incremental_compaction_value`. -/
def rewriteIncrementalCompactionValue (h : Heap) (requireForwarded : Bool) (value : Value) :
    Except HeapError Value :=
  match value, h.phase with
  | .object id, .compacting c =>
    if c.sourceIds.getD id.slot none = some id then
      match c.forwarding.getD id.slot none with
      | some destination => do
        let _ ← h.checkedSlot destination
        return .object destination
      | none =>
        if requireForwarded then
          .error (.logicError "incremental compaction final rewrite found an unmoved object")
        else do
          let _ ← h.checkedSlot id
          return value
    else do
      let _ ← h.checkedSlot id
      return value
  | _, _ => .ok value

/-- `canonicalize_incremental_compaction_read`: outside the phase every value is canonical. -/
def canonicalizeIncrementalCompactionRead (h : Heap) (value : Value) :
    Except HeapError Value :=
  h.rewriteIncrementalCompactionValue false value

/-- `normalize_incremental_compaction_shadow_value`: the source identifier of the object. -/
def normalizeShadowValue (h : Heap) (c : IncrementalCompaction) (value : Value) :
    Except HeapError Value :=
  match value with
  | .object id =>
    if c.sourceIds.getD id.slot none = some id then .ok value
    else
      match c.plan.find? fun entry => entry.destinationId = id with
      | some entry => .ok (.object entry.sourceId)
      | none => do
        let _ ← h.checkedSlot id
        throw (.logicError
          "incremental compaction shadow saw an object outside its source snapshot")
  | _ => .ok value

/-- `incremental_compaction_shadow_object`: the slot and the shadow of the object. -/
def shadowObject (h : Heap) (c : IncrementalCompaction) (id : ObjectId) :
    Except HeapError (ℕ × Object) := do
  let missing : HeapError := .logicError "incremental compaction mutation has no shadow owner"
  match ← h.normalizeShadowValue c (.object id) with
  | .object source =>
    match c.shadowObjects.getD source.slot none with
    | some object => return (source.slot, object)
    | none => throw missing
  | _ => throw missing

/-- `forward_incremental_compaction_registries`. -/
def forwardRegistries (h : Heap) (entry : IncrementalCompactionEntry) : Heap :=
  let forwardOwner := fun id => if id = entry.sourceId then entry.destinationId else id
  { h with
    rememberedSet := h.rememberedSet.map forwardOwner
    weakRefs := h.weakRefs.map forwardOwner
    internTable := h.internTable.map fun e => { e with canonical := forwardOwner e.canonical }
    ephemerons := h.ephemerons.map forwardOwner }

/-- Moves the object of a plan entry to its destination and records the forwarding. -/
def moveEntry (h : Heap) (c : IncrementalCompaction) (entry : IncrementalCompactionEntry)
    (object : Object) : Heap :=
  let freed := if entry.sourceSlot = entry.destinationSlot then h.objects
    else h.objects.set entry.sourceSlot none
  { h with
    objects := freed.set entry.destinationSlot (some object.promote)
    generations := h.generations.set entry.destinationSlot entry.destinationId.generation
    phase := .compacting { c with
      forwarding := c.forwarding.set entry.sourceSlot (some entry.destinationId)
      cursor := c.cursor + 1 }
    issued := (entry.destinationId, object.serial) :: h.issued }

end Heap

/-- One iteration of `incremental_compact_step_impl`. -/
def incrementalCompactEntry (c : IncrementalCompaction) (entry : IncrementalCompactionEntry)
    (extraRoots : List Value) : HeapM (List Value) := do
  let (sourceSlot, object) ← HeapM.query (·.resolve entry.sourceId)
  let h ← get
  if sourceSlot ≠ entry.sourceSlot then
    throw (.logicError "incremental compaction source identity drifted")
  if object.width ≠ entry.width then
    throw (.logicError "incremental compaction source width drifted")
  if h.objects.length < entry.destinationSlot + entry.width then
    throw (.logicError "incremental compaction destination exceeds heap storage")
  if (List.range entry.width).any fun offset =>
      (h.objectAt (entry.destinationSlot + offset)).isSome
        && entry.destinationSlot + offset ≠ entry.sourceSlot then
    throw (.logicError "incremental compaction destination overlaps a live header")
  set (h.moveEntry c entry object)
  let h ← get
  let extraRoots ← rewriteRoots (h.rewriteIncrementalCompactionValue false) extraRoots
  modify (·.forwardRegistries entry)
  if object.isYoung then recordPromotedObjectEdges [entry.destinationSlot]
  HeapM.query (·.validateAfterCollection extraRoots)
  return extraRoots

/-- The loop of `incremental_compact_step_impl`: the number of objects moved and the
caller's cells. -/
def incrementalCompactLoop : ℕ → List Value → HeapM (ℕ × List Value)
  | 0, extraRoots => pure (0, extraRoots)
  | budget + 1, extraRoots => do
    match (← get).phase with
    | .compacting c =>
      match c.plan[c.cursor]? with
      | some entry =>
        let extraRoots ← incrementalCompactEntry c entry extraRoots
        let (consumed, extraRoots) ← incrementalCompactLoop budget extraRoots
        return (consumed + 1, extraRoots)
      | none => return (0, extraRoots)
    | _ => return (0, extraRoots)

def incrementalCompactStepImpl (budget : ℕ) (extraRoots : List Value) :
    HeapM (ℕ × List Value) := do
  if !(← get).incrementalCompactionActive then
    throw (.logicError "incremental compaction step without active cycle")
  let (consumed, extraRoots) ← incrementalCompactLoop budget extraRoots
  if consumed = 0 then HeapM.query (·.validateAfterCollection extraRoots)
  return (consumed, extraRoots)

end LanguageRuntime.Gc
