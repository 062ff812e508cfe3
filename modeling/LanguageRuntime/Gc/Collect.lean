import LanguageRuntime.Gc.Compact

/-!
# Installing a movement, and incremental marking

The half of a collection that follows marking, shared by the atomic collections and the end
of incremental marking, and the incremental marking phase itself
(`start_incremental_marking .. TEST_ONLY_validate_incremental_marking`,
`finish_incremental_marking_impl .. validate_incremental_result_against_atomic` of
`src/gc/heap.cpp`).
-/

namespace LanguageRuntime.Gc

open LanguageRuntime

/-- `rewrite_references`: the roots, then the reference fields of the moved objects. -/
def rewriteReferences (forwarding : ForwardingTable) (movedObjects : List (Option Object))
    (extraRoots : List Value) : HeapM (List (Option Object) × List Value) := do
  let h ← get
  let extraRoots ← rewriteRoots (h.rewriteValue forwarding) extraRoots
  let movedObjects ← HeapM.query fun h => movedObjects.mapM (h.rewriteObject forwarding)
  return (movedObjects, extraRoots)

def recordRememberedObject (id : ObjectId) : HeapM Unit := do
  let (_, object) ← HeapM.query (·.resolve id)
  if !object.isOld then
    throw (.logicError "remembered-set insertion attempted for a non-old object")
  modify fun h =>
    if h.rememberedSet.contains id then h
    else { h with rememberedSet := h.rememberedSet ++ [id] }

def recordPromotedObjectEdges : List ℕ → HeapM Unit
  | [] => pure ()
  | slot :: promotedSlots => do
    let h ← get
    match h.objectAt slot with
    | some object =>
      if !object.isOld then
        throw (.logicError "collector promotion edge scan did not name an installed old object")
      if ← HeapM.query (·.hasYoungReference object) then recordRememberedObject (h.currentId slot)
    | none =>
      throw (.logicError "collector promotion edge scan did not name an installed old object")
    recordPromotedObjectEdges promotedSlots

/-- The old objects that directly refer to a young one, in slot order. -/
def Heap.prunedRememberedSet (h : Heap) : Except HeapError (List ObjectId) :=
  (List.range h.objects.length).foldlM (fun pruned slot =>
    match h.objectAt slot with
    | some object =>
      if object.isOld then do
        return if ← h.hasYoungReference object then pruned ++ [h.currentId slot] else pruned
      else .ok pruned
    | none => .ok pruned) []

def pruneRememberedSet : HeapM Unit := do
  let pruned ← HeapM.query Heap.prunedRememberedSet
  modify fun h => { h with rememberedSet := pruned }

/-- What a collection does once the live objects are marked: compact, rewrite every
reference, forward the side tables, install the result and leave any marking phase. -/
def compactMarkedObjects (kind : CollectionKind) (extraRoots : List Value) :
    HeapM (List Value) := do
  let compacted ← HeapM.query (·.compactLiveObjects kind)
  let (movedObjects, extraRoots) ←
    rewriteReferences compacted.forwarding compacted.objects extraRoots
  let rememberedSet ← HeapM.query (·.rewriteRememberedSet compacted.forwarding)
  let (movedObjects, weakRefs) ←
    HeapM.query (·.processWeakTargets compacted.forwarding movedObjects)
  let internTable ← HeapM.query (·.processInternTable compacted.forwarding true)
  let (movedObjects, ephemerons) ←
    HeapM.query (·.processEphemerons compacted.forwarding movedObjects)
  modify fun h => { h with
    objects := movedObjects
    generations := compacted.generations
    rememberedSet := rememberedSet
    weakRefs := weakRefs
    internTable := internTable
    ephemerons := ephemerons
    phase := .idle
    issued := compacted.issued }
  recordPromotedObjectEdges compacted.promotedSlots
  pruneRememberedSet
  HeapM.query (·.validateAfterCollection extraRoots)
  return extraRoots

/-- Enqueues the collection roots. -/
def Heap.enqueueCollectionRoots (h : Heap) (kind : CollectionKind) (extraRoots : List Value) :
    Except HeapError (List ObjectId) :=
  h.enqueueMarkValues kind [] (h.traceCollectionRoots extraRoots)

/-- Marks what is live in a collection of the given kind. -/
def markCollectionRoots (kind : CollectionKind) (extraRoots : List Value) : HeapM Unit := do
  let worklist ← HeapM.query (·.enqueueCollectionRoots kind extraRoots)
  let worklist ← HeapM.query fun h =>
    match kind with
    | .major => .ok worklist
    | .minor => h.enqueueYoungReferencesFromRememberedSet worklist
  drainMarkWorklist kind worklist
  processEphemeronFixpoint kind []

/-! ## Incremental marking -/

/-- `TEST_ONLY_validate_incremental_marking`, which every marking step runs: no marked object
refers to an object that is neither marked nor grey. -/
def Heap.validateIncrementalMarking (h : Heap) : Except HeapError Unit :=
  match h.phase with
  | .marking worklist =>
    h.objects.forM fun slot =>
      match slot with
      | some object =>
        if object.marked then
          object.payload.referenceFields.forM fun value =>
            match value with
            | .object id => do
              let (_, target) ← h.resolve id
              if !target.marked && !worklist.contains id then
                throw (.logicError
                  "incremental tri-colour invariant violated: black-to-white edge")
            | _ => .ok ()
        else .ok ()
      | none => .ok ()
  | _ => .ok ()

def startIncrementalMarking : HeapM Unit := do
  let h ← get
  if h.incrementalMarkingActive then
    throw (.logicError "incremental marking cycle already active")
  if h.incrementalCompactionActive then
    throw (.logicError "incremental marking cannot start during incremental compaction")
  HeapM.query Heap.validateBeforeCollection
  let worklist ← HeapM.query (·.enqueueCollectionRoots .major [])
  modify fun h => { h with phase := .marking worklist }

/-- The loop of `incremental_mark_step`: scans at most `budget` objects and counts them. -/
def incrementalMarkLoop : ℕ → List ObjectId → HeapM ℕ
  | 0, _ => pure 0
  | budget + 1, worklist => do
    match ← scanNextMarkObject .major worklist with
    | none =>
      modify fun h => { h with phase := .marking [] }
      return 0
    | some worklist =>
      modify fun h => { h with phase := .marking worklist }
      return (← incrementalMarkLoop budget worklist) + 1

def incrementalMarkStep (budget : ℕ) : HeapM ℕ := do
  match (← get).phase with
  | .marking worklist =>
    let consumed ← incrementalMarkLoop budget worklist
    HeapM.query Heap.validateIncrementalMarking
    return consumed
  | _ => throw (.logicError "incremental marking step without active cycle")

/-- Removes every mark bit. -/
def Heap.clearMarks (h : Heap) : Heap :=
  { h with objects := h.objects.map (Option.map fun o => { o with marked := false }) }

/-! `validate_incremental_result_against_atomic` marks again, into a bit vector of its own. -/

/-- The loop that drains the differential worklist; `fuel` bounds the pops. -/
def Heap.differentialDrain (h : Heap) :
    ℕ → List ObjectId → List Bool → Except HeapError (List Bool)
  | 0, _, live => .ok live
  | _ + 1, [], live => .ok live
  | fuel + 1, id :: worklist, live => do
    let (slot, object) ← h.resolve id
    if live.getD slot false then differentialDrain h fuel worklist live
    else
      differentialDrain h fuel
        (object.payload.referenceFields.filterMap Value.object? ++ worklist)
        (live.set slot true)

/-- A bound on the pops of the differential worklist: every entry comes from the initial
worklist or from a field of an object that is scanned once. -/
def Heap.differentialFuel (h : Heap) (worklist : List ObjectId) : ℕ :=
  worklist.length + (h.objects.map fun slot =>
    slot.elim 0 fun object => object.payload.referenceFields.length).sum + 1

def Heap.activateDifferentialEphemeron (h : Heap) (live : List Bool)
    (state : List ObjectId × Bool) (ownerId : ObjectId) :
    Except HeapError (List ObjectId × Bool) := do
  let (ownerSlot, owner) ← h.resolve ownerId
  if !live.getD ownerSlot false then return state
  match owner.payload with
  | .ephemeron (.object key) value valueIsRef =>
    let keySlot ← h.checkedSlot key
    if !live.getD keySlot false then return state
    match valueIsRef, value with
    | true, .object valueId =>
      let valueSlot ← h.checkedSlot valueId
      if live.getD valueSlot false then return state
      return (valueId :: state.1, true)
    | _, _ => return state
  | _ => return state

def Heap.differentialFixpoint (h : Heap) :
    ℕ → List Bool → Except HeapError (List Bool)
  | 0, live => .ok live
  | fuel + 1, live => do
    let (worklist, progressed) ←
      h.ephemerons.foldlM (h.activateDifferentialEphemeron live) ([], false)
    let live ← h.differentialDrain (h.differentialFuel worklist) worklist live
    if progressed then differentialFixpoint h fuel live else return live

/-- `validate_incremental_result_against_atomic`. -/
def Heap.validateIncrementalResultAgainstAtomic (h : Heap) (extraRoots : List Value) :
    Except HeapError Unit := do
  let worklist := ((h.traceCollectionRoots extraRoots).filterMap Value.object?).reverse
  let live ← h.differentialDrain (h.differentialFuel worklist) worklist
    (List.replicate h.objects.length false)
  let live ← h.differentialFixpoint (h.objects.length + 1) live
  (List.range h.objects.length).forM fun slot =>
    match h.objectAt slot with
    | some object =>
      if object.marked = live.getD slot false then .ok ()
      else .error (.logicError
        ("incremental/STW differential liveness mismatch at heap slot " ++ toString slot))
    | none => .ok ()

/-- `finish_incremental_marking_liveness`: marks again from the current roots. -/
def finishIncrementalMarkingLiveness (extraRoots : List Value) : HeapM Unit := do
  if !(← get).incrementalMarkingActive then
    throw (.logicError "incremental marking finish without active cycle")
  HeapM.query Heap.validateIncrementalMarking
  modify Heap.clearMarks
  modify fun h => { h with phase := .marking [] }
  markCollectionRoots .major extraRoots
  HeapM.query (·.validateIncrementalResultAgainstAtomic extraRoots)

def finishIncrementalMarkingImpl (extraRoots : List Value) : HeapM (List Value) := do
  finishIncrementalMarkingLiveness extraRoots
  compactMarkedObjects .major extraRoots

end LanguageRuntime.Gc
