import LanguageRuntime.Gc.Finish

/-!
# Allocation, interning and handles

`allocate_object` and the public allocators of `src/gc/heap.cpp`. The operands of an
allocation are extra roots of the collections it triggers, so every allocator reads them
back from the cells a collection returns.
-/

namespace LanguageRuntime.Gc

open LanguageRuntime

/-! ## Construction roots -/

/-- Puts new values into the fields a bitmap marks. -/
def replaceMarkedFields : List Value → List Bool → List Value → List Value
  | v :: fields, isRef :: refMap, values =>
    if isRef then
      match values with
      | value :: values => value :: replaceMarkedFields fields refMap values
      | [] => v :: fields
    else v :: replaceMarkedFields fields refMap values
  | fields, _, _ => fields

def replaceMapEntries (keyIsRef valueIsRef : Bool) :
    List MapEntry → List Value → List MapEntry
  | entry :: entries, values =>
    let key := if keyIsRef then values.headD entry.key else entry.key
    let values := if keyIsRef then values.tail else values
    let value := if valueIsRef then values.headD entry.value else entry.value
    let values := if valueIsRef then values.tail else values
    ⟨key, value⟩ :: replaceMapEntries keyIsRef valueIsRef entries values
  | [], _ => []

/-- Puts new values into the fields `allFields` lists. -/
def Payload.replaceFields (values : List Value) : Payload → Payload
  | .pair left right => .pair (values.getD 0 left) (values.getD 1 right)
  | .refArray _ => .refArray values
  | .closure l fn captures captureMap =>
    .closure l fn (replaceMarkedFields captures captureMap values) captureMap
  | .map m => .map { m with entries := replaceMapEntries m.keyIsRef m.valueIsRef m.entries values }
  | .weakRef target => .weakRef (values.getD 0 target)
  | .record l fields refMap => .record l (replaceMarkedFields fields refMap values) refMap
  | .variant l c fields caseRefMaps =>
    .variant l c (replaceMarkedFields fields (caseRefMaps.getD c []) values) caseRefMaps
  | .ephemeron key value valueIsRef =>
    .ephemeron (values.getD 0 key) (if valueIsRef then values.getD 1 value else value) valueIsRef
  | p => p

/-! ## The allocator -/

/-- `UINT32_MAX - old_size + 1` in the unsigned 64-bit arithmetic of the slot limit test. -/
def slotsLeft (oldSize : ℕ) : ℕ := (headerLimit + 2 ^ 64 - oldSize + 1) % 2 ^ 64

/-- `resize` of the slot and generation vectors. -/
def Heap.resize (h : Heap) (size : ℕ) : Heap :=
  { h with
    objects := h.objects ++ List.replicate (size - h.objects.length) none
    generations := h.generations ++ List.replicate (size - h.generations.length) 0 }

/-- Inserts an entry before the first one whose slot is not below `slot`. -/
def insertInSlotOrder {α : Type} (slotOf : α → ℕ) (slot : ℕ) (entry : α) (entries : List α) :
    List α :=
  entries.takeWhile (slotOf · < slot) ++ entry :: entries.dropWhile (slotOf · < slot)

/-- Finds a run of free slots, extending the heap if there is none. -/
def reserveStorageRun (requiredSlots : ℕ) : HeapM ℕ := do
  let h ← get
  match h.findFreeStorageRun requiredSlots with
  | some base => return base
  | none =>
    let oldSize := h.objects.length
    if slotsLeft oldSize < requiredSlots then
      throw (.lengthError "heap object slot limit exceeded")
    set (h.resize (oldSize + requiredSlots))
    return oldSize

/-- Installs a young object at a reserved run and registers it. -/
def Heap.installObject (h : Heap) (descriptor : Descriptor) (baseSlot generation : ℕ) : Heap :=
  let id := makeObjectId baseSlot generation
  { h with
    objects := h.objects.set baseSlot (some {
      marked := false
      generation := .young
      payload := descriptor.val
      shape := descriptor.property
      serial := h.nextSerial })
    generations := h.generations.set baseSlot generation
    weakRefs :=
      if descriptor.val.kind = .weakRef then
        insertInSlotOrder ObjectId.slot baseSlot id h.weakRefs
      else h.weakRefs
    ephemerons :=
      if descriptor.val.kind = .ephemeron then
        insertInSlotOrder ObjectId.slot baseSlot id h.ephemerons
      else h.ephemerons
    phase :=
      match h.phase with
      | .marking worklist => .marking (id :: worklist)
      | phase => phase
    nextSerial := h.nextSerial + 1
    issued := (id, h.nextSerial) :: h.issued }

/-- The part of `allocate_object` outside incremental compaction. -/
def placeObject (payload : Payload) : HeapM ObjectId := do
  let descriptor ← HeapM.query fun _ => validateDescriptorShape payload
  let baseSlot ← reserveStorageRun descriptor.val.storageSlotCount
  let generation ← HeapM.query fun h => generationForNewBase (h.generationAt baseSlot)
  modify (·.installObject descriptor baseSlot generation)
  return makeObjectId baseSlot generation

/-- `allocate_object`. -/
def allocateObject (descriptor : Descriptor) : HeapM ObjectId := do
  if (← get).incrementalCompactionActive then
    let fields ← finishIncrementalCompactionImpl descriptor.val.allFields
    placeObject (descriptor.val.replaceFields fields)
  else placeObject descriptor.val

/-- The collection of `collect_before_every_allocation`; returns the operands. -/
def collectBeforeAllocation (operands : List Value) : HeapM (List Value) := do
  if (← get).stressConfig.collectBeforeEveryAllocation then collectWithExtraRoots operands
  else return operands

/-- The collection of `collect_after_every_allocation`; returns the identifier. -/
def collectAfterAllocation (id : ObjectId) : HeapM ObjectId := do
  if (← get).stressConfig.collectAfterEveryAllocation then
    match ← collectWithExtraRoots [.object id] with
    | [.object id] => return id
    | _ => throw (.logicError "value is not object")
  else return id

/-- `allocate_object` of what a constructor built, and the collection after it. -/
def allocateDescriptor (descriptor : Except HeapError Descriptor) : HeapM ObjectId := do
  let descriptor ← HeapM.query fun _ => descriptor
  collectAfterAllocation (← allocateObject descriptor)

/-! ## The public allocators -/

def allocatePair (left right : Value) : HeapM ObjectId := do
  let operands ← collectBeforeAllocation [left, right]
  allocateDescriptor (.ok (Object.pair (operands.getD 0 .nil) (operands.getD 1 .nil)))

def allocateScalarArray (length : ℕ) (init : Int64) : HeapM ObjectId := do
  let _ ← collectBeforeAllocation []
  allocateDescriptor (Object.scalarArray length init)

def allocateRefArray (length : ℕ) (init : Value) : HeapM ObjectId := do
  let _ ← HeapM.query fun _ => Object.requireObjectReferenceValue init "ref array init value"
  let operands ← collectBeforeAllocation [init]
  allocateDescriptor (Object.refArray length (operands.getD 0 .nil))

def allocateString (bytes : List UInt8) : HeapM ObjectId := do
  let _ ← collectBeforeAllocation []
  allocateDescriptor (Object.string bytes)

def allocateBuilder : HeapM ObjectId := do
  let _ ← collectBeforeAllocation []
  allocateDescriptor (.ok Object.builder)

/-- The bytes of the string a value names. -/
def Heap.stringBytesOf (h : Heap) (value : Value) (context : String) :
    Except HeapError (List UInt8) := do
  h.checkedString (← Object.requireObjectReferenceValue value context)

def builderToString (builder : Value) : HeapM ObjectId := do
  let context := "builder to_str receiver"
  let id ← HeapM.query fun _ => Object.requireObjectReferenceValue builder context
  let _ ← HeapM.query (·.checkedBuilder id)
  let operands ← finishActiveCompaction [builder]
  let operands ← collectBeforeAllocation operands
  let id ← HeapM.query fun _ =>
    Object.requireObjectReferenceValue (operands.getD 0 .nil) context
  let (_, _, _, bytes) ← HeapM.query (·.checkedBuilder id)
  allocateDescriptor (Object.string bytes)

def allocateStringConcat (left right : Value) : HeapM ObjectId := do
  let _ ← HeapM.query (·.stringBytesOf left "string concat left operand")
  let _ ← HeapM.query (·.stringBytesOf right "string concat right operand")
  let operands ← collectBeforeAllocation [left, right]
  let leftBytes ← HeapM.query
    (·.stringBytesOf (operands.getD 0 .nil) "string concat left operand")
  let rightBytes ← HeapM.query
    (·.stringBytesOf (operands.getD 1 .nil) "string concat right operand")
  if headerLimit - leftBytes.length < rightBytes.length then
    throw (.lengthError "string concatenation exceeds object header limit")
  allocateDescriptor (Object.string (leftBytes ++ rightBytes))

/-- `allocate_string_substring`; the virtual machine has checked `lo` and `hi`. -/
def allocateStringSubstring (source : Value) (lo hi : ℕ) : HeapM ObjectId := do
  let _ ← HeapM.query (·.stringBytesOf source "string substring source operand")
  let operands ← collectBeforeAllocation [source]
  let bytes ← HeapM.query
    (·.stringBytesOf (operands.getD 0 .nil) "string substring source operand")
  allocateDescriptor (Object.string ((bytes.drop lo).take (hi - lo)))

/-- The lookup of `intern_string`: the first entry with the hash and the bytes. -/
def Heap.findInterned (h : Heap) (contentHash : UInt64) (source : ObjectId) :
    List InternEntry → Except HeapError (Option ObjectId)
  | [] => .ok none
  | entry :: entries => do
    if entry.contentHash = contentHash then
      if ← h.stringEqual entry.canonical source then return some entry.canonical
    findInterned h contentHash source entries

/-- Greys a canonical string found while marking incrementally. -/
def shadeInterned (existing : ObjectId) : HeapM Unit := do
  match (← get).phase with
  | .marking worklist =>
    let worklist ← HeapM.query (·.enqueueMarkValue .major worklist (.object existing))
    modify fun h => { h with phase := .marking worklist }
  | _ => pure ()

/-- Allocates a canonical string with the bytes of `source` and registers it. -/
def internNewString (source : ObjectId) (contentHash : UInt64) : HeapM ObjectId := do
  let operands ← collectBeforeAllocation [.object source]
  let bytes ← HeapM.query
    (·.stringBytesOf (operands.getD 0 .nil) "string intern source operand")
  let canonical ← allocateDescriptor (Object.string bytes)
  modify fun h => { h with
    internTable := insertInSlotOrder (fun entry => entry.canonical.slot) canonical.slot
      ⟨contentHash, canonical⟩ h.internTable }
  HeapM.query Heap.validateInternTable
  return canonical

def internString (source : Value) : HeapM ObjectId := do
  let context := "string intern source operand"
  let _ ← HeapM.query (·.stringBytesOf source context)
  let operands ← finishActiveCompaction [source]
  let source ← HeapM.query fun _ =>
    Object.requireObjectReferenceValue (operands.getD 0 .nil) context
  let contentHash ← HeapM.query fun h => stringContentHash <$> h.checkedString source
  match ← HeapM.query fun h => h.findInterned contentHash source h.internTable with
  | some existing =>
    shadeInterned existing
    return existing
  | none => internNewString source contentHash

def allocateClosure (layoutIndex functionIndex : ℕ) (captures : List Value)
    (captureMap : List Bool) : HeapM ObjectId := do
  if captures.length ≠ captureMap.length then
    throw (.logicError "closure capture-map length does not match capture payload")
  let _ ← HeapM.query fun _ => Object.closure layoutIndex functionIndex captures captureMap
  let captures ← collectBeforeAllocation captures
  allocateDescriptor (Object.closure layoutIndex functionIndex captures captureMap)

def allocateMap (layoutIndex : ℕ) (keyIsRef valueIsRef : Bool) : HeapM ObjectId := do
  let _ ← collectBeforeAllocation []
  allocateDescriptor (Object.map layoutIndex keyIsRef valueIsRef)

def allocateWeak (target : Value) : HeapM ObjectId := do
  let id ← HeapM.query fun _ =>
    Object.requireObjectReferenceValue target "weak reference target"
  let _ ← HeapM.query (·.checkedSlot id)
  let operands ← collectBeforeAllocation [target]
  allocateDescriptor (Object.weakRef (operands.getD 0 .nil))

/-- The operand checks of `allocate_ephemeron`. -/
def Heap.checkEphemeronOperands (h : Heap) (key value : Value) (valueIsRef : Bool) :
    Except HeapError Unit := do
  match key with
  | .object id => let _ ← h.checkedSlot id
  | _ => throw (.logicError "value is not object")
  match valueIsRef, value with
  | true, .object id => let _ ← h.checkedSlot id
  | _, _ => pure ()

def allocateEphemeron (key value : Value) (valueIsRef : Bool) : HeapM ObjectId := do
  HeapM.query (·.checkEphemeronOperands key value valueIsRef)
  let operands ← collectBeforeAllocation [key, value]
  allocateDescriptor
    (Object.ephemeron (operands.getD 0 .nil) (operands.getD 1 .nil) valueIsRef)

def allocateRecord (layoutIndex : ℕ) (fields : List Value) (refMap : List Bool) :
    HeapM ObjectId := do
  if fields.length ≠ refMap.length then
    throw (.logicError "record reference-bitmap length does not match field payload")
  let _ ← HeapM.query fun _ => Object.record layoutIndex fields refMap
  let operands ← collectBeforeAllocation (markedFields fields refMap)
  allocateDescriptor
    (Object.record layoutIndex (replaceMarkedFields fields refMap operands) refMap)

def allocateVariant (layoutIndex caseIndex : ℕ) (fields : List Value)
    (caseRefMaps : List (List Bool)) : HeapM ObjectId := do
  let _ ← HeapM.query fun _ => Object.variant layoutIndex caseIndex fields caseRefMaps
  let fields ← collectBeforeAllocation fields
  allocateDescriptor (Object.variant layoutIndex caseIndex fields caseRefMaps)

/-! ## Handles -/

/-- `make_handle`; `key` is the address of the new handle's slot. -/
def makeHandle (key : ℕ) (value : Value) : HeapM Unit := do
  HeapM.query (·.validateValue value)
  modify fun h => { h with handleRoots := h.handleRoots ++ [⟨key, value⟩] }

/-- `deregister_handle_root`, run when a handle is released. -/
def releaseHandle (key : ℕ) : HeapM Unit :=
  modify fun h => { h with handleRoots := h.handleRoots.eraseP (·.key = key) }

/-- `move_handle_root`. -/
def moveHandle (source destination : ℕ) : HeapM Unit :=
  modify fun h => { h with
    handleRoots := h.handleRoots.map fun root =>
      if root.key = source then { root with key := destination } else root }

end LanguageRuntime.Gc
