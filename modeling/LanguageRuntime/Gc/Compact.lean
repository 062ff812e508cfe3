import LanguageRuntime.Gc.Mark

/-!
# Moving objects

Sliding compaction, the rewriting of every reference through a forwarding table, and the
passes over the side tables (`record_promoted_object_edges`,
`compact_live_objects .. prune_remembered_set` of `src/gc/heap.cpp`).
-/

namespace LanguageRuntime.Gc

open LanguageRuntime

/-- The result of `compact_live_objects`, with the cursor of its loop. -/
structure CompactionResult where
  forwarding : ForwardingTable
  objects : List (Option Object)
  generations : List ℕ
  promotedSlots : List ℕ
  nextLiveSlot : ℕ
  /-- Ghost: the identifiers given to the moved objects. -/
  issued : List (ObjectId × ℕ)
deriving DecidableEq

namespace Object

/-- The object survives a collection of the given kind. -/
def survives (kind : CollectionKind) (o : Object) : Bool :=
  match kind with
  | .major => o.marked
  | .minor => o.isOld || o.marked

/-- The copy a collection installs: unmarked and old. -/
def promote (o : Object) : Object := { o with marked := false, generation := .old }

def mapReferenceFields (f : ObjectId → ObjectId) (o : Object) : Object :=
  { o with payload := o.payload.mapReferenceFields f, shape := o.shape.mapReferenceFields f }

def forwardWeakTarget (f : ObjectId → Option ObjectId) (o : Object) : Object :=
  { o with payload := o.payload.forwardWeakTarget f, shape := o.shape.forwardWeakTarget f }

def forwardEphemeron (f : ObjectId → Option ObjectId) (o : Object) : Object :=
  { o with payload := o.payload.forwardEphemeron f, shape := o.shape.forwardEphemeron f }

end Object

/-- Moves an object to the cursor, under the generation given. -/
def CompactionResult.place (result : CompactionResult) (oldSlot : ℕ) (object : Object)
    (generation : ℕ) : CompactionResult :=
  let next := result.nextLiveSlot
  let newId := makeObjectId next generation
  { forwarding := result.forwarding.set oldSlot (some newId)
    objects := result.objects.set next (some object.promote)
    generations := result.generations.set next generation
    promotedSlots :=
      if object.isYoung then result.promotedSlots ++ [next] else result.promotedSlots
    nextLiveSlot := next + object.width
    issued := (newId, object.serial) :: result.issued }

namespace Heap

/-- One slot of the loop of `compact_live_objects`. -/
def compactSlot (h : Heap) (kind : CollectionKind) (result : CompactionResult) (oldSlot : ℕ) :
    Except HeapError CompactionResult :=
  match h.objectAt oldSlot with
  | none => .ok result
  | some object =>
    if !object.survives kind then .ok result
    else if result.objects.length < result.nextLiveSlot + object.width then
      .error (.logicError "compaction cursor exceeded heap storage capacity")
    else
      result.place oldSlot object <$>
        destinationGeneration oldSlot result.nextLiveSlot
          (result.generations.getD result.nextLiveSlot 0)

def compactLiveObjects (h : Heap) (kind : CollectionKind) : Except HeapError CompactionResult :=
  (List.range h.objects.length).foldlM (h.compactSlot kind) {
    forwarding := List.replicate h.objects.length none
    objects := List.replicate h.objects.length none
    generations := h.generations
    promotedSlots := []
    nextLiveSlot := 0
    issued := h.issued }

/-- The new identifier of the object `id` names, if it has one. -/
def forwardId (h : Heap) (forwarding : ForwardingTable) (id : ObjectId) :
    Except HeapError (Option ObjectId) := do
  return forwarding.getD (← h.checkedSlot id) none

def rewriteValue (h : Heap) (forwarding : ForwardingTable) (value : Value) :
    Except HeapError Value :=
  match value with
  | .object id => do
    match ← h.forwardId forwarding id with
    | some destination => return .object destination
    | none => throw (.logicError "live object reference missing compaction forwarding entry")
  | _ => .ok value

/-- `forwardId` where it is known to succeed. -/
def forwardIdD (h : Heap) (forwarding : ForwardingTable) (id : ObjectId) : ObjectId :=
  match h.forwardId forwarding id with
  | .ok (some destination) => destination
  | _ => id

/-- Rewrites the reference fields of one moved object. -/
def rewriteObject (h : Heap) (forwarding : ForwardingTable) (slot : Option Object) :
    Except HeapError (Option Object) :=
  match slot with
  | none => .ok none
  | some object => do
    let _ ← object.payload.referenceFields.mapM (h.rewriteValue forwarding)
    return some (object.mapReferenceFields (h.forwardIdD forwarding))

/-- `forwardId` where the identifier is known to resolve. -/
def forwardId? (h : Heap) (forwarding : ForwardingTable) (id : ObjectId) : Option ObjectId :=
  match h.forwardId forwarding id with
  | .ok destination => destination
  | .error _ => none

/-- `process_weak_targets`: the moved objects with their weak targets forwarded or cleared,
and the new registry. -/
def processWeakTarget (h : Heap) (forwarding : ForwardingTable)
    (state : List (Option Object) × List ObjectId) (oldOwner : ObjectId) :
    Except HeapError (List (Option Object) × List ObjectId) := do
  match ← h.forwardId forwarding oldOwner with
  | none => return state
  | some newOwner =>
    match state.1.getD newOwner.slot none with
    | some object =>
      match object.payload with
      | .weakRef target =>
        match target with
        | .object id => let _ ← h.checkedSlot id
        | _ => pure ()
        return (state.1.set newOwner.slot (some (object.forwardWeakTarget (h.forwardId? forwarding))),
          state.2 ++ [newOwner])
      | _ => throw (.logicError "weak registry owner missing from movement forwarding result")
    | none => throw (.logicError "weak registry owner missing from movement forwarding result")

/-- The slots of a registry increase strictly. -/
def inSlotOrder : List ObjectId → Bool
  | a :: b :: rest => decide (a.slot < b.slot) && inSlotOrder (b :: rest)
  | _ => true

def processWeakTargets (h : Heap) (forwarding : ForwardingTable)
    (movedObjects : List (Option Object)) :
    Except HeapError (List (Option Object) × List ObjectId) := do
  let state ← h.weakRefs.foldlM (h.processWeakTarget forwarding) (movedObjects, [])
  if !inSlotOrder state.2 then
    throw (.logicError "weak registry movement did not preserve strict heap-slot order")
  return state

def processInternEntry (h : Heap) (forwarding : ForwardingTable)
    (collectionWeakProcessing : Bool) (entry : InternEntry) :
    Except HeapError (Option InternEntry) := do
  match ← h.forwardId forwarding entry.canonical with
  | some canonical => return some { entry with canonical := canonical }
  | none =>
    if collectionWeakProcessing then return none
    throw (.logicError "all-live movement omitted an intern-table canonical")

/-- `process_intern_table`: the entries of the strings that moved, in slot order. -/
def processInternTable (h : Heap) (forwarding : ForwardingTable)
    (collectionWeakProcessing : Bool) : Except HeapError (List InternEntry) := do
  let entries ← h.internTable.mapM (h.processInternEntry forwarding collectionWeakProcessing)
  return (entries.filterMap id).mergeSort fun a b => a.canonical.slot ≤ b.canonical.slot

/-- The checks of `process_ephemerons`: a live key keeps its value alive. -/
def checkEphemeronForwarding (h : Heap) (forwarding : ForwardingTable) (payload : Payload) :
    Except HeapError Unit :=
  match payload with
  | .ephemeron (.object key) value valueIsRef => do
    if (← h.forwardId forwarding key).isSome then
      match valueIsRef, value with
      | true, .object valueId =>
        if (← h.forwardId forwarding valueId).isNone then
          throw (.logicError "active ephemeron value missing forwarding entry")
      | _, _ => pure ()
  | _ => .ok ()

def processEphemeron (h : Heap) (forwarding : ForwardingTable)
    (state : List (Option Object) × List ObjectId) (oldOwner : ObjectId) :
    Except HeapError (List (Option Object) × List ObjectId) := do
  match ← h.forwardId forwarding oldOwner with
  | none => return state
  | some newOwner =>
    match state.1.getD newOwner.slot none with
    | some object =>
      h.checkEphemeronForwarding forwarding object.payload
      return (state.1.set newOwner.slot (some (object.forwardEphemeron (h.forwardId? forwarding))),
        state.2 ++ [newOwner])
    | none => return (state.1, state.2 ++ [newOwner])

def processEphemerons (h : Heap) (forwarding : ForwardingTable)
    (movedObjects : List (Option Object)) :
    Except HeapError (List (Option Object) × List ObjectId) :=
  h.ephemerons.foldlM (h.processEphemeron forwarding) (movedObjects, [])

def rewriteRememberedSet (h : Heap) (forwarding : ForwardingTable) :
    Except HeapError (List ObjectId) :=
  h.rememberedSet.foldlM (fun rewritten remembered => do
    match ← h.forwardId forwarding remembered with
    | none => return rewritten
    | some id => return if rewritten.contains id then rewritten else rewritten ++ [id]) []

/-- Whether the object at some slot directly refers to a young object. -/
def hasYoungReference (h : Heap) (object : Object) : Except HeapError Bool :=
  object.payload.referenceFields.foldlM (fun found value =>
    match value with
    | .object id => do
      let (_, target) ← h.resolve id
      return found || target.isYoung
    | _ => .ok found) false

end Heap

/-- Rewrites cells in place until one of them cannot be rewritten. -/
def rewriteCells (f : Value → Except HeapError Value) :
    List Value → List Value × Option HeapError
  | [] => ([], none)
  | value :: cells =>
    match f value with
    | .error e => (value :: cells, some e)
    | .ok value' =>
      let (cells', error) := rewriteCells f cells
      (value' :: cells', error)

/-- Lets a visitor rewrite every collection root: the provider's cells, the handles and the
cells of the caller, which are returned. -/
def rewriteRoots (f : Value → Except HeapError Value) (extraRoots : List Value) :
    HeapM (List Value) := do
  let h ← get
  let (rootCells, rootError) := rewriteCells f h.rootCells
  set { h with rootCells := rootCells }
  match rootError with
  | some e => throw e
  | none =>
    let (slots, handleError) := rewriteCells f (h.handleRoots.map HandleRoot.slot)
    modify fun h => { h with
      handleRoots := h.handleRoots.zipWith (fun root slot => { root with slot := slot }) slots }
    match handleError with
    | some e => throw e
    | none =>
      match rewriteCells f extraRoots with
      | (_, some e) => throw e
      | (cells, none) => return cells

end LanguageRuntime.Gc
