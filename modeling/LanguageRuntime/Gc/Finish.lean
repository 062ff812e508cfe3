import LanguageRuntime.Gc.Incremental

/-!
# The end of incremental compaction, and atomic collection

The final rewrite, the differential check of an incremental compaction against the atomic
compaction of its shadow (`validate_incremental_compaction_against_atomic ..
finalize_incremental_compaction` of `src/gc/heap.cpp`) and `collect_impl`.
-/

namespace LanguageRuntime.Gc

open LanguageRuntime

namespace Payload

/-- Every field that can hold a reference, the collector-owned ones included. -/
def allFields (p : Payload) : List Value := p.referenceFields ++ p.weakFields

end Payload

/-- Forwards every field that can hold a reference. -/
def Object.forwardFields (f : ObjectId → ObjectId) (o : Object) : Object :=
  ((o.mapReferenceFields f).forwardWeakTarget fun id => some (f id)).forwardEphemeron
    fun id => some (f id)

/-! ## The differential check -/

/-- The atomic compaction of the shadow, with the cursor of its loop. -/
structure ExpectedCompaction where
  forwarding : ForwardingTable
  objects : List (Option Object)
  generations : List ℕ
  destinationSlot : ℕ

/-- Moves a shadow object to the cursor, under the generation given. -/
def ExpectedCompaction.place (state : ExpectedCompaction) (sourceSlot : ℕ) (source : Object)
    (generation : ℕ) : ExpectedCompaction :=
  let destinationSlot := state.destinationSlot
  { forwarding := state.forwarding.set sourceSlot (some (makeObjectId destinationSlot generation))
    objects := state.objects.set destinationSlot (some source.promote)
    generations := state.generations.set destinationSlot generation
    destinationSlot := destinationSlot + source.width }

namespace IncrementalCompaction

def expectedSlot (c : IncrementalCompaction) (state : ExpectedCompaction) (sourceSlot : ℕ) :
    Except HeapError ExpectedCompaction :=
  match c.shadowObjects.getD sourceSlot none with
  | none => .ok state
  | some source =>
    if state.objects.length < state.destinationSlot + source.width then
      .error (.logicError "incremental compaction/STW differential plan overflow")
    else
      state.place sourceSlot source <$>
        destinationGeneration sourceSlot state.destinationSlot
          (state.generations.getD state.destinationSlot 0)

def expectedCompaction (c : IncrementalCompaction) : Except HeapError ExpectedCompaction :=
  (List.range c.shadowObjects.length).foldlM c.expectedSlot {
    forwarding := List.replicate c.shadowObjects.length none
    objects := List.replicate c.shadowObjects.length none
    generations := c.shadowGenerations
    destinationSlot := 0 }

/-- The destination of a source identifier of the shadow. -/
def shadowDestination (c : IncrementalCompaction) (forwarding : ForwardingTable)
    (id : ObjectId) : Option ObjectId :=
  if id.generation ≠ 0 ∧ c.shadowGenerations.getD id.slot 0 = id.generation
      ∧ (c.shadowObjects.getD id.slot none).isSome then
    forwarding.getD id.slot none
  else none

def rewriteShadowId (c : IncrementalCompaction) (forwarding : ForwardingTable) (id : ObjectId) :
    Except HeapError ObjectId :=
  match c.shadowDestination forwarding id with
  | some destination => .ok destination
  | none =>
    .error (.logicError "incremental compaction/STW differential invalid source reference")

def rewriteShadowValue (c : IncrementalCompaction) (forwarding : ForwardingTable)
    (value : Value) : Except HeapError Value :=
  match value with
  | .object id => Value.object <$> c.rewriteShadowId forwarding id
  | _ => .ok value

def rewriteShadowObject (c : IncrementalCompaction) (forwarding : ForwardingTable)
    (slot : Option Object) : Except HeapError (Option Object) :=
  match slot with
  | none => .ok none
  | some object => do
    let _ ← object.payload.allFields.mapM (c.rewriteShadowValue forwarding)
    return some (object.forwardFields fun id => (c.shadowDestination forwarding id).getD id)

end IncrementalCompaction

/-- `objects_equal`: every field the source compares, that is all but the ghost. -/
def objectsEqual (left right : Object) : Bool :=
  left.marked == right.marked && left.generation == right.generation
    && left.payload == right.payload

namespace Heap

def differentialSlotError (slot : ℕ) (expected actual : Option Object) : Option HeapError :=
  match expected, actual with
  | none, none => none
  | some expected, some actual =>
    if objectsEqual expected actual then none
    else some (.logicError
      ("incremental compaction/STW differential object mismatch at heap slot " ++ toString slot))
  | _, _ => some (.logicError
      ("incremental compaction/STW differential occupancy mismatch at heap slot "
        ++ toString slot))

/-- `validate_incremental_compaction_against_atomic`. -/
def validateIncrementalCompactionAgainstAtomic (h : Heap) (extraRoots : List Value) :
    Except HeapError Unit := do
  match h.phase with
  | .compacting c =>
    if c.cursor ≠ c.plan.length then
      throw (.logicError
        "incremental compaction differential validation outside quiescence")
    let expected ← c.expectedCompaction
    let expectedObjects ← expected.objects.mapM (c.rewriteShadowObject expected.forwarding)
    let expectedWeakRefs ← c.shadowWeakRefs.mapM (c.rewriteShadowId expected.forwarding)
    let expectedInternTable ← c.shadowInternTable.mapM fun entry => do
      return { entry with canonical := ← c.rewriteShadowId expected.forwarding entry.canonical }
    let expectedEphemerons ← c.shadowEphemerons.mapM (c.rewriteShadowId expected.forwarding)
    let actualRoots := h.traceCollectionRoots extraRoots
    let expectedRoots ← actualRoots.mapM fun root => do
      c.rewriteShadowValue expected.forwarding (← h.normalizeShadowValue c root)
    if expected.forwarding.length ≠ c.forwarding.length then
      throw (.logicError "incremental compaction/STW differential forwarding size mismatch")
    (List.range expected.forwarding.length).forM fun slot =>
      if expected.forwarding.getD slot none = c.forwarding.getD slot none then .ok ()
      else .error (.logicError
        ("incremental compaction/STW differential forwarding mismatch at heap slot "
          ++ toString slot))
    if expected.generations ≠ h.generations then
      throw (.logicError "incremental compaction/STW differential generation mismatch")
    if expectedObjects.length ≠ h.objects.length then
      throw (.logicError "incremental compaction/STW differential heap size mismatch")
    (List.range h.objects.length).forM fun slot =>
      match differentialSlotError slot (expectedObjects.getD slot none) (h.objectAt slot) with
      | some e => .error e
      | none => .ok ()
    if expectedWeakRefs ≠ h.weakRefs then
      throw (.logicError "incremental compaction/STW differential weak registry mismatch")
    if expectedInternTable ≠ h.internTable then
      throw (.logicError "incremental compaction/STW differential intern table mismatch")
    if expectedEphemerons ≠ h.ephemerons then
      throw (.logicError "incremental compaction/STW differential ephemeron registry mismatch")
    if !h.rememberedSet.isEmpty then
      throw (.logicError "incremental compaction/STW differential remembered-set mismatch")
    if expectedRoots ≠ actualRoots then
      throw (.logicError "incremental compaction/STW differential precise-root mismatch")
  | _ =>
    throw (.logicError "incremental compaction differential validation outside quiescence")

/-- The destination of an identifier whose object has moved. -/
def finalId (h : Heap) (id : ObjectId) : ObjectId :=
  match h.rewriteIncrementalCompactionValue true (.object id) with
  | .ok (.object destination) => destination
  | _ => id

/-- The final rewrite of one object. -/
def finalRewriteObject (h : Heap) (slot : Option Object) : Except HeapError (Option Object) :=
  match slot with
  | none => .ok none
  | some object => do
    let _ ← object.payload.allFields.mapM (h.rewriteIncrementalCompactionValue true)
    return some (object.forwardFields h.finalId)

/-- Every object of the plan has moved. -/
def incrementalCompactionQuiescent (h : Heap) : Bool :=
  match h.phase with
  | .compacting c => c.cursor == c.plan.length
  | _ => false

end Heap

def finalizeIncrementalCompaction (extraRoots : List Value) : HeapM (List Value) := do
  let h ← get
  if !h.incrementalCompactionQuiescent then
    throw (.logicError "incremental compaction finalized before relocation quiescence")
  let extraRoots ← rewriteRoots (h.rewriteIncrementalCompactionValue true) extraRoots
  let objects ← HeapM.query fun h => h.objects.mapM h.finalRewriteObject
  modify fun h => { h with objects := objects }
  pruneRememberedSet
  HeapM.query (·.validateAfterCollection extraRoots)
  HeapM.query (·.validateIncrementalCompactionAgainstAtomic extraRoots)
  modify fun h => { h with phase := .idle }
  HeapM.query (·.validateAfterCollection extraRoots)
  return extraRoots

def finishIncrementalCompactionImpl (extraRoots : List Value) : HeapM (List Value) := do
  match (← get).phase with
  | .compacting c =>
    let extraRoots ←
      if c.cursor ≠ c.plan.length then
        Prod.snd <$> incrementalCompactStepImpl (c.plan.length - c.cursor) extraRoots
      else pure extraRoots
    finalizeIncrementalCompaction extraRoots
  | _ => throw (.logicError "incremental compaction finish without active cycle")

/-! ## Atomic collection -/

/-- Finishes an active incremental compaction, as every operation that may move or widen an
object does first; the caller's cells are returned rewritten. -/
def finishActiveCompaction (extraRoots : List Value) : HeapM (List Value) := do
  if (← get).incrementalCompactionActive then finishIncrementalCompactionImpl extraRoots
  else return extraRoots

/-- The first part of `collect_impl`: finishes an active incremental phase. -/
def finishIncrementalPhase (extraRoots : List Value) : HeapM (List Value) := do
  let extraRoots ← finishActiveCompaction extraRoots
  if (← get).incrementalMarkingActive then finishIncrementalMarkingImpl extraRoots
  else return extraRoots

/-- The rest of `collect_impl`, outside the incremental phases. -/
def collectAtomically (kind : CollectionKind) (extraRoots : List Value) :
    HeapM (List Value) := do
  HeapM.query Heap.validateBeforeCollection
  markCollectionRoots kind extraRoots
  compactMarkedObjects kind extraRoots

/-- `collect_impl`; the caller's cells are returned rewritten. -/
def collectImpl (kind : CollectionKind) (extraRoots : List Value) : HeapM (List Value) := do
  collectAtomically kind (← finishIncrementalPhase extraRoots)

/-- `collect_with_extra_roots`. -/
def collectWithExtraRoots (extraRoots : List Value) : HeapM (List Value) :=
  collectImpl .major extraRoots

end LanguageRuntime.Gc
