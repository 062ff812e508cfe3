import LanguageRuntime.Gc.MapIndex

/-!
# Storage occupancy and the validators

The free-run search of the allocator and the invariant validators the heap runs around
every collection (`find_free_storage_run`, `is_storage_slot_free`,
`validate_heap_storage_layout .. validate_value` of `src/gc/heap.cpp`).
-/

namespace LanguageRuntime.Gc

open LanguageRuntime

namespace Object

def width (o : Object) : ℕ := o.payload.storageSlotCount

def isYoung (o : Object) : Bool := o.generation == .young

def isOld (o : Object) : Bool := o.generation == .old

theorem width_pos (o : Object) : 0 < o.width := o.payload.storageSlotCount_pos

end Object

namespace Heap

/-- The walk of `find_free_storage_run`; every iteration moves `base` forward, so as many
iterations as there are slots suffice. -/
def freeRunLoop (h : Heap) (requiredSlots : ℕ) : ℕ → ℕ → ℕ → ℕ → Option ℕ
  | 0, _, _, _ => none
  | fuel + 1, base, freeRunStart, freeRunLength =>
    if base < h.objects.length then
      match h.objectAt base with
      | some object => freeRunLoop h requiredSlots fuel (base + object.width) freeRunStart 0
      | none =>
        let start := if freeRunLength = 0 then base else freeRunStart
        if freeRunLength + 1 = requiredSlots then some start
        else freeRunLoop h requiredSlots fuel (base + 1) start (freeRunLength + 1)
    else none

def findFreeStorageRun (h : Heap) (requiredSlots : ℕ) : Option ℕ :=
  h.freeRunLoop requiredSlots h.objects.length 0 0 0

def isStorageSlotFree (h : Heap) (slot : ℕ) : Bool :=
  decide (slot < h.objects.length) && (h.objectAt slot).isNone &&
    (List.range h.objects.length).all fun base =>
      match h.objectAt base with
      | none => true
      | some object => !(decide (base < slot) && decide (slot < base + object.width))

/-- `trace_collection_roots`: the cells a collection visits, in order. -/
def traceCollectionRoots (h : Heap) (extraRoots : List Value) : List Value :=
  h.rootCells ++ h.handleRoots.map HandleRoot.slot ++ extraRoots

/-! ## Validators -/

/-- Marks one slot of the run at `base` as covered. -/
def coverSlot (h : Heap) (base : ℕ) (covered : List Bool) (offset : ℕ) :
    Except HeapError (List Bool) :=
  if covered.getD (base + offset) false then
    .error (.logicError "heap object storage runs overlap")
  else if offset ≠ 0 ∧ (h.objectAt (base + offset)).isSome then
    .error (.logicError "heap object payload slot contains an object header")
  else .ok (covered.set (base + offset) true)

def coverObject (h : Heap) (covered : List Bool) (base : ℕ) : Except HeapError (List Bool) :=
  match h.objectAt base with
  | none => .ok covered
  | some object => do
    if covered.getD base false then
      throw (.logicError "heap object header overlaps another object's storage run")
    match object.payload with
    | .map m => h.validateMapLookupIndex m
    | _ => pure ()
    if object.width = 0 ∨ h.objects.length < base + object.width then
      throw (.logicError "heap object descriptor extends past heap storage")
    (List.range object.width).foldlM (h.coverSlot base) covered

def validateHeapStorageLayout (h : Heap) : Except HeapError Unit := do
  let _ ← (List.range h.objects.length).foldlM h.coverObject
    (List.replicate h.objects.length false)

def validateValue (h : Heap) (value : Value) : Except HeapError Unit :=
  match value with
  | .object id => do let _ ← h.checkedSlot id
  | _ => .ok ()

def validateRememberedField (h : Heap) (owner : ObjectId) (value : Value) :
    Except HeapError Unit :=
  match value with
  | .object id => do
    let (_, target) ← h.resolve id
    if target.isYoung && !h.rememberedSet.contains owner then
      throw (.logicError "old-to-young reference missing remembered-set entry")
  | _ => .ok ()

def validateRememberedSet (h : Heap) : Except HeapError Unit := do
  h.rememberedSet.forM fun remembered => do
    let (_, object) ← h.resolve remembered
    if !object.isOld then
      throw (.logicError "remembered-set entry does not name an old object")
  (List.range h.objects.length).forM fun slot =>
    match h.objectAt slot with
    | some object =>
      if object.isOld then
        object.payload.referenceFields.forM (h.validateRememberedField (h.currentId slot))
      else .ok ()
    | none => .ok ()

/-- One slot of `validate_weak_targets`: the registry entries not yet matched and the slot
of the last one. -/
def validateWeakTarget (h : Heap) (registry : List ObjectId × Option ℕ) (slot : ℕ) :
    Except HeapError (List ObjectId × Option ℕ) :=
  match h.objectAt slot with
  | some ⟨_, _, .weakRef target, _, _⟩ =>
    match registry with
    | ([], _) => .error (.logicError "live WeakRef is missing from weak-target registry")
    | (registered :: rest, previousSlot) => do
      if registered.slot ≠ slot then
        throw (.logicError "weak-target registry names a stale or wrong WeakRef owner")
      if (← h.checkedSlot registered) ≠ slot then
        throw (.logicError "weak-target registry names a stale or wrong WeakRef owner")
      if previousSlot.any (registered.slot ≤ ·) then
        throw (.logicError "weak-target registry is not in strict heap-slot order")
      h.validateValue target
      return (rest, some registered.slot)
  | _ => .ok registry

def validateWeakTargets (h : Heap) : Except HeapError Unit := do
  let (rest, _) ← (List.range h.objects.length).foldlM h.validateWeakTarget (h.weakRefs, none)
  if !rest.isEmpty then
    throw (.logicError "weak-target registry contains a dead or non-WeakRef owner")

/-- One slot of `validate_ephemerons`. -/
def validateEphemeron (h : Heap) (registry : List ObjectId × Option ℕ) (slot : ℕ) :
    Except HeapError (List ObjectId × Option ℕ) :=
  match h.objectAt slot with
  | some ⟨_, _, .ephemeron key value valueIsRef, _, _⟩ =>
    match registry with
    | ([], _) => .error (.logicError "live Ephemeron is missing from registry")
    | (registered :: rest, previousSlot) => do
      if (← h.checkedSlot registered) ≠ slot then
        throw (.logicError "live Ephemeron is missing from registry")
      if previousSlot.any (registered.slot ≤ ·) then
        throw (.logicError "ephemeron registry is not in strict slot order")
      h.validateValue key
      if valueIsRef then h.validateValue value
      return (rest, some registered.slot)
  | _ => .ok registry

def validateEphemerons (h : Heap) : Except HeapError Unit := do
  let (rest, _) ← (List.range h.objects.length).foldlM h.validateEphemeron (h.ephemerons, none)
  if !rest.isEmpty then
    throw (.logicError "ephemeron registry contains a dead owner")

/-- One entry of `validate_intern_table`, after the entries `prior`. -/
def validateInternEntry (h : Heap) (prior : List InternEntry) (entry : InternEntry) :
    Except HeapError Unit := do
  let invalid : HeapError :=
    .logicError "intern table entry names an invalid or stale canonical string"
  match h.resolve entry.canonical with
  | .error (.outOfRange _) => throw invalid
  | .error e => throw e
  | .ok (_, object) => if object.payload.kind ≠ .str then throw invalid
  if prior.getLast?.any fun previous => decide (entry.canonical.slot ≤ previous.canonical.slot) then
    throw (.logicError "intern table is not in strict heap-slot order")
  if stringContentHash (← h.checkedString entry.canonical) ≠ entry.contentHash then
    throw (.logicError "intern table content hash disagrees with canonical bytes")
  prior.forM fun previous => do
    if previous.contentHash = entry.contentHash then
      if ← h.stringEqual previous.canonical entry.canonical then
        throw (.logicError "intern table contains duplicate canonical bytes")

def validateInternEntries (h : Heap) (prior : List InternEntry) :
    List InternEntry → Except HeapError Unit
  | [] => .ok ()
  | entry :: entries => do
    h.validateInternEntry prior entry
    validateInternEntries h (prior ++ [entry]) entries

def validateInternTable (h : Heap) : Except HeapError Unit :=
  h.validateInternEntries [] h.internTable

def validateAfterCollection (h : Heap) (extraRoots : List Value) : Except HeapError Unit := do
  h.validateHeapStorageLayout
  (h.traceCollectionRoots extraRoots).forM h.validateValue
  h.objects.forM fun slot =>
    match slot with
    | some object => object.payload.referenceFields.forM h.validateValue
    | none => .ok ()
  h.validateRememberedSet
  h.validateWeakTargets
  h.validateInternTable
  h.validateEphemerons

/-- The validators every collection starts with. -/
def validateBeforeCollection (h : Heap) : Except HeapError Unit := do
  h.validateHeapStorageLayout
  h.validateRememberedSet
  h.validateWeakTargets
  h.validateInternTable
  h.validateEphemerons

end Heap

end LanguageRuntime.Gc
