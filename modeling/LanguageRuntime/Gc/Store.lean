import LanguageRuntime.Gc.Allocate

/-!
# Stores and growth

The write barriers, the field stores, and the maps and builders that outgrow their storage
run (`ensure_map_growth_storage .. record_map_write_barrier_if_needed` of
`src/gc/heap.cpp`).
-/

namespace LanguageRuntime.Gc

open LanguageRuntime

/-! ## Write barriers -/

/-- `incremental_write_barrier_before_publish`: greys the target of a store into a marked
object. -/
def incrementalWriteBarrierBeforePublish (owner : ObjectId) (value : Value) : HeapM Unit := do
  match (← get).phase, value with
  | .marking worklist, .object id =>
    let (_, ownerObject) ← HeapM.query (·.resolve owner)
    let (_, target) ← HeapM.query (·.resolve id)
    if ownerObject.marked && !target.marked then
      modify fun h => { h with phase := .marking (id :: worklist) }
  | _, _ => pure ()

/-- `record_write_barrier_if_needed`: whether the barrier was hit. -/
def recordWriteBarrierIfNeeded (owner : ObjectId) (value : Value) : HeapM Bool := do
  match value with
  | .object id =>
    let (_, ownerObject) ← HeapM.query (·.resolve owner)
    let (_, target) ← HeapM.query (·.resolve id)
    if ownerObject.isOld && target.isYoung then
      recordRememberedObject owner
      return true
    return false
  | _ => return false

/-- Whether a value refers to a young object. -/
def Heap.refersToYoung (h : Heap) (value : Value) : Except HeapError Bool :=
  match value with
  | .object id => do
    let (_, target) ← h.resolve id
    return target.isYoung
  | _ => .ok false

/-- `record_map_write_barrier_if_needed`; the key is given when it is inserted. -/
def recordMapWriteBarrierIfNeeded (owner : ObjectId) (insertedKey : Option Value)
    (value : Value) : HeapM Bool := do
  let (_, ownerObject) ← HeapM.query (·.resolve owner)
  if !ownerObject.isOld then return false
  let youngKey ←
    match insertedKey with
    | some key => HeapM.query (·.refersToYoung key)
    | none => pure false
  let youngValue ← HeapM.query (·.refersToYoung value)
  if youngKey || youngValue then
    recordRememberedObject owner
    return true
  return false

/-! ## Publishing a new payload -/

/-- Replaces the payload of an object. -/
def Object.withPayload (o : Object) : Descriptor → Object
  | ⟨payload, shape⟩ => { o with payload := payload, shape := shape }

def Heap.setPayload (h : Heap) (slot : ℕ) (descriptor : Descriptor) : Heap :=
  match h.objectAt slot with
  | some object => h.putObject slot (object.withPayload descriptor)
  | none => h

/-- Mirrors a mutation of the object `id` into the shadow heap. `update` computes the new
shadow payload, or fails when the shadow no longer has the expected shape. -/
def mirrorIntoShadow (id : ObjectId)
    (update : Heap → IncrementalCompaction → Payload → Except HeapError Payload) :
    HeapM Unit := do
  match (← get).phase with
  | .compacting c =>
    let (slot, shadow) ← HeapM.query (·.shadowObject c id)
    let payload ← HeapM.query fun h => update h c shadow.payload
    let descriptor ← HeapM.query fun _ => validateDescriptorShape payload
    modify fun h => { h with phase := .compacting { c with
      shadowObjects := c.shadowObjects.set slot (some (shadow.withPayload descriptor)) } }
  | _ => pure ()

/-- The minor collection after a hit write barrier. -/
def collectAfterBarrier (barrierTriggered : Bool) (mutationRoots : List Value) : HeapM Unit := do
  if barrierTriggered && (← get).stressConfig.collectMinorAfterEveryWriteBarrier then
    let _ ← collectImpl .minor mutationRoots

/-- Canonicalizes a value held in a reference field. -/
def Heap.canonicalizeReference (h : Heap) (isRef : Bool) (value : Value) :
    Except HeapError Value :=
  if isRef then h.canonicalizeIncrementalCompactionRead value else .ok value

/-- The barriers in front of a store into a field of `owner`: whether the write barrier was
hit. -/
def fieldBarriers (isRef : Bool) (owner : ObjectId) (value : Value) : HeapM Bool := do
  if isRef then
    incrementalWriteBarrierBeforePublish owner value
    recordWriteBarrierIfNeeded owner value
  else return false

/-- What the field stores share once the operands are checked: the barriers, the new payload,
its mirror in the shadow heap and the collection after a hit barrier. -/
def publishField (id : ObjectId) (slot : ℕ) (isRef : Bool) (value : Value) (payload : Payload)
    (mirror : Heap → IncrementalCompaction → Payload → Except HeapError Payload)
    (mutationRoots : List Value) : HeapM Unit := do
  let barrierTriggered ← fieldBarriers isRef id value
  let descriptor ← HeapM.query fun _ => validateDescriptorShape payload
  modify (·.setPayload slot descriptor)
  mirrorIntoShadow id mirror
  collectAfterBarrier barrierTriggered mutationRoots

/-! ## Growth -/

/-- The forwarding table of a growth relocation: every object keeps its identifier but the
one that moves. -/
def Heap.growthForwarding (h : Heap) (oldSlot : ℕ) (newId : ObjectId) : ForwardingTable :=
  (List.range h.objects.length).map fun slot =>
    if (h.objectAt slot).isNone then none
    else if slot = oldSlot then some newId
    else some (h.currentId slot)

/-- Forwards the grey worklist through a growth relocation. -/
def Heap.forwardWorklist (h : Heap) (forwarding : ForwardingTable) (message : String) :
    Except HeapError Phase :=
  match h.phase with
  | .marking worklist => do
    let worklist ← worklist.mapM fun grey => do
      match ← h.forwardId forwarding grey with
      | some destination => return destination
      | none => throw (.logicError message)
    return .marking worklist
  | phase => .ok phase

/-- What `relocate_map_for_growth` and `relocate_builder_for_growth` share: moves the object
to the end of the heap and rewrites everything that names it. -/
def relocateForGrowth (ownerId : ObjectId) (requiredWidth : ℕ) (growthRoots : List Value)
    (limitMessage worklistMessage : String) : HeapM (List Value) := do
  let (oldSlot, object) ← HeapM.query (·.resolve ownerId)
  let h ← get
  let oldSize := h.objects.length
  if headerLimit < oldSize ∨ slotsLeft oldSize < requiredWidth then
    throw (.lengthError limitMessage)
  let generation ← HeapM.query fun _ => generationForNewBase 0
  let newId := makeObjectId oldSize generation
  let forwarding := h.growthForwarding oldSlot newId
  let relocated := h.resize (oldSize + requiredWidth)
  let movedObjects := (relocated.objects.set oldSlot none).set oldSize (some object)
  let rememberedSet ← HeapM.query (·.rewriteRememberedSet forwarding)
  let (movedObjects, growthRoots) ← rewriteReferences forwarding movedObjects growthRoots
  let (movedObjects, weakRefs) ← HeapM.query (·.processWeakTargets forwarding movedObjects)
  let internTable ← HeapM.query (·.processInternTable forwarding false)
  let (movedObjects, ephemerons) ← HeapM.query (·.processEphemerons forwarding movedObjects)
  let phase ← HeapM.query (·.forwardWorklist forwarding worklistMessage)
  modify fun h => { h with
    objects := movedObjects
    generations := relocated.generations.set oldSize generation
    rememberedSet := rememberedSet
    weakRefs := weakRefs
    internTable := internTable
    ephemerons := ephemerons
    phase := phase
    issued := (newId, object.serial) :: h.issued }
  HeapM.query Heap.validateBeforeCollection
  return growthRoots

/-- The run right behind the object has room up to `requiredWidth`. -/
def Heap.adjacentRunIsFree (h : Heap) (ownerSlot currentWidth requiredWidth : ℕ) : Bool :=
  (List.range' (ownerSlot + currentWidth)
    (min h.objects.length (ownerSlot + requiredWidth) - (ownerSlot + currentWidth))).all
    h.isStorageSlotFree

/-- Grows in place if the adjacent run is free, and otherwise relocates. -/
def ensureGrowthStorage (ownerSlot currentWidth requiredWidth : ℕ) (growthRoots : List Value)
    (relocate : HeapM (List Value)) : HeapM (List Value) := do
  let h ← get
  if !h.adjacentRunIsFree ownerSlot currentWidth requiredWidth then relocate
  else
    if h.objects.length < ownerSlot + requiredWidth then set (h.resize (ownerSlot + requiredWidth))
    return growthRoots

def relocateMapForGrowth (ownerId : ObjectId) (requiredWidth : ℕ) (growthRoots : List Value) :
    HeapM (List Value) := do
  HeapM.query Heap.validateWeakTargets
  HeapM.query Heap.validateInternTable
  relocateForGrowth ownerId requiredWidth growthRoots
    "map growth exceeds heap object slot limit"
    "incremental grey object missing map-growth forwarding entry"

def ensureMapGrowthStorage (ownerId : ObjectId) (requiredWidth : ℕ) (growthRoots : List Value) :
    HeapM (List Value) := do
  let (ownerSlot, object, _) ← HeapM.query (·.checkedMap ownerId)
  ensureGrowthStorage ownerSlot object.width requiredWidth growthRoots
    (relocateMapForGrowth ownerId requiredWidth growthRoots)

def relocateBuilderForGrowth (ownerId : ObjectId) (requiredWidth : ℕ)
    (growthRoots : List Value) : HeapM (List Value) := do
  HeapM.query Heap.validateBeforeCollection
  relocateForGrowth ownerId requiredWidth growthRoots
    "builder growth exceeds heap object slot limit"
    "incremental grey object missing builder-growth forwarding entry"

def ensureBuilderGrowthStorage (ownerId : ObjectId) (requiredWidth : ℕ)
    (growthRoots : List Value) : HeapM (List Value) := do
  let (ownerSlot, object, _) ← HeapM.query (·.checkedBuilder ownerId)
  if requiredWidth ≤ object.width then
    throw (.logicError "builder growth did not increase its logical storage width")
  ensureGrowthStorage ownerSlot object.width requiredWidth growthRoots
    (relocateBuilderForGrowth ownerId requiredWidth growthRoots)

end LanguageRuntime.Gc
