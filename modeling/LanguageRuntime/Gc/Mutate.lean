import LanguageRuntime.Gc.Store

/-!
# Field, element, map and builder stores

`store_map_entry .. store_ephemeron_value` of `src/gc/heap.cpp`.
-/

namespace LanguageRuntime.Gc

open LanguageRuntime

/-- `value.as_object()`. -/
def asObject (value : Value) : Except HeapError ObjectId :=
  match value with
  | .object id => .ok id
  | _ => .error (.logicError "value is not object")

/-! ## Pairs and arrays -/

/-- Which field of a pair a store writes. -/
inductive PairField where
  | left
  | right
deriving DecidableEq, Repr

/-- A pair with one field replaced. -/
def PairField.store (field : PairField) (left right value : Value) : Payload :=
  match field with
  | .left => .pair value right
  | .right => .pair left value

/-- The mirror of a store into a pair. -/
def mirrorPairField (field : PairField) (value : Value) (h : Heap) (c : IncrementalCompaction) :
    Payload → Except HeapError Payload
  | .pair left right => field.store left right <$> h.normalizeShadowValue c value
  | _ => .error (.logicError "incremental compaction pair shadow kind drifted")

def storePairField (id : ObjectId) (field : PairField) (value : Value) : HeapM Unit := do
  let value ← HeapM.query (·.canonicalizeIncrementalCompactionRead value)
  let (slot, _, left, right) ← HeapM.query (·.checkedPair id)
  publishField id slot true value (field.store left right value) (mirrorPairField field value) []

/-- The mirror of a store into a scalar array. -/
def mirrorScalarElement (index : ℕ) (value : Int64) : Payload → Except HeapError Payload
  | .scalarArray elements =>
    if elements.length ≤ index then
      .error (.logicError "incremental compaction scalar-array shadow shape drifted")
    else .ok (.scalarArray (elements.set index value))
  | _ => .error (.logicError "incremental compaction scalar-array shadow shape drifted")

def arraySet (id : ObjectId) (index : ℕ) (value : Int64) : HeapM Unit := do
  let (slot, _, elements) ← HeapM.query (·.checkedScalarArray id)
  if elements.length ≤ index then throw (.outOfRange "scalar array index out of bounds")
  publishField id slot false (.int64 value) (.scalarArray (elements.set index value))
    (fun _ _ => mirrorScalarElement index value) []

/-- The mirror of a store into a reference array. -/
def mirrorRefElement (index : ℕ) (value : Value) (h : Heap) (c : IncrementalCompaction) :
    Payload → Except HeapError Payload
  | .refArray elements =>
    if elements.length ≤ index then
      .error (.logicError "incremental compaction ref-array shadow shape drifted")
    else (fun value => .refArray (elements.set index value)) <$> h.normalizeShadowValue c value
  | _ => .error (.logicError "incremental compaction ref-array shadow shape drifted")

def storeRefArrayElement (id : ObjectId) (index : ℕ) (value : Value) : HeapM Unit := do
  let _ ← HeapM.query fun _ => Object.requireObjectReferenceValue value "ref array stored value"
  let value ← HeapM.query (·.canonicalizeIncrementalCompactionRead value)
  let (slot, _, elements) ← HeapM.query (·.checkedRefArray id)
  if elements.length ≤ index then throw (.outOfRange "ref array index out of bounds")
  publishField id slot true value (.refArray (elements.set index value))
    (mirrorRefElement index value) []

/-! ## Records and ephemerons -/

/-- The value to store into a field: an object that resolves or nil in a reference field, a
scalar in any other. -/
def Heap.fieldOperand (h : Heap) (isRef : Bool) (value : Value)
    (referenceMessage scalarMessage : String) : Except HeapError Value :=
  if isRef then
    match value with
    | .object id => do
      let _ ← h.checkedSlot id
      h.canonicalizeIncrementalCompactionRead value
    | .nil => .ok value
    | _ => .error (.logicError referenceMessage)
  else if value.isScalar then .ok value
  else .error (.logicError scalarMessage)

/-- The shadow of a field value: references are normalized to source identifiers. -/
def Heap.shadowFieldValue (h : Heap) (c : IncrementalCompaction) (isRef : Bool) (value : Value) :
    Except HeapError Value :=
  if isRef then h.normalizeShadowValue c value else .ok value

/-- The mirror of a store into a record. -/
def mirrorRecordField (index : ℕ) (isRef : Bool) (value : Value) (h : Heap)
    (c : IncrementalCompaction) : Payload → Except HeapError Payload
  | .record layoutIndex fields refMap =>
    if fields.length ≤ index ∨ refMap.getD index false ≠ isRef then
      .error (.logicError "incremental compaction record shadow shape drifted")
    else
      (fun value => .record layoutIndex (fields.set index value) refMap) <$>
        h.shadowFieldValue c isRef value
  | _ => .error (.logicError "incremental compaction record shadow shape drifted")

def storeRecordField (id : ObjectId) (index : ℕ) (value : Value) : HeapM Unit := do
  let (slot, _, layoutIndex, fields, refMap) ← HeapM.query (·.checkedRecord id)
  if fields.length ≤ index then throw (.outOfRange "record field index out of bounds")
  let isRef := refMap.getD index false
  let value ← HeapM.query (·.fieldOperand isRef value
    "record reference field must carry Object or Nil tag"
    "record scalar field must carry i64 or bool tag")
  publishField id slot isRef value (.record layoutIndex (fields.set index value) refMap)
    (mirrorRecordField index isRef value) [.object id, value]

/-- The mirror of a store into an ephemeron. -/
def mirrorEphemeronValue (isRef : Bool) (value : Value) (h : Heap) (c : IncrementalCompaction) :
    Payload → Except HeapError Payload
  | .ephemeron key _ valueIsRef =>
    if valueIsRef ≠ isRef then
      .error (.logicError "incremental compaction ephemeron shadow shape drifted")
    else (.ephemeron key · valueIsRef) <$> h.shadowFieldValue c valueIsRef value
  | _ => .error (.logicError "incremental compaction ephemeron shadow shape drifted")

def storeEphemeronValue (id : ObjectId) (value : Value) : HeapM Unit := do
  let (slot, _, key, _, valueIsRef) ← HeapM.query (·.checkedEphemeron id)
  if key.isNil then throw (.logicError "cannot mutate a cleared ephemeron")
  let value ← HeapM.query (·.fieldOperand valueIsRef value
    "ephemeron reference value must be object or nil"
    "ephemeron scalar value must be i64 or bool")
  publishField id slot valueIsRef value (.ephemeron key value valueIsRef)
    (mirrorEphemeronValue valueIsRef value) [.object id, value]

/-! ## Maps -/

/-- A map with the value of one entry replaced. -/
def MapPayload.overwrite (m : MapPayload) (entry : ℕ) (value : Value) : MapPayload :=
  { m with entries := m.entries.modify entry fun e => { e with value := value } }

/-- A map with one more entry, its lookup index extended or rebuilt. -/
def MapPayload.insert (m : MapPayload) (h : Heap) (key value : Value) :
    Except HeapError MapPayload := do
  let entryIndex := m.entries.length
  let desiredCapacity ← mapLookupIndexCapacity (entryIndex + 1)
  let keyHash ← h.mapKeyHash key
  let index ←
    if m.lookupIndex.length ≠ desiredCapacity then h.buildMapLookupIndex m desiredCapacity
    else pure m.lookupIndex
  let bucket ← findOpenMapBucket index keyHash
  return { m with
    entries := m.entries ++ [⟨key, value⟩]
    lookupIndex := index.set bucket (← encodedMapEntryIndex entryIndex) }

/-- Makes room for one more entry; returns the owner, the key and the value. -/
def prepareMapInsertion (id : ObjectId) (key value : Value) : HeapM (List Value) := do
  let operands ← finishActiveCompaction [.object id, key, value]
  let ownerId ← HeapM.query fun _ => asObject (operands.getD 0 .nil)
  let (_, before, map) ← HeapM.query (·.checkedMap ownerId)
  if headerLimit ≤ map.entries.length then
    throw (.lengthError "map entry count exceeds object header limit")
  ensureMapGrowthStorage ownerId (before.width + 2) operands

/-- The map after a store: `existing` is the entry of the key, if it has one. -/
def MapPayload.store (m : MapPayload) (h : Heap) (existing : Option ℕ) (key value : Value) :
    Except HeapError MapPayload :=
  match existing with
  | some entry => .ok (m.overwrite entry value)
  | none => m.insert h key value

/-- The mirror of a store into a map. -/
def mirrorMapEntry (existing : Option ℕ) (value : Value) (h : Heap) (c : IncrementalCompaction)
    (shadow : Payload) : Except HeapError Payload :=
  match existing, shadow with
  | some entry, .map m =>
    if m.entries.length ≤ entry then
      .error (.logicError "incremental compaction map shadow shape drifted")
    else (fun value => .map (m.overwrite entry value)) <$> h.shadowFieldValue c m.valueIsRef value
  | none, _ =>
    .error (.logicError "incremental compaction shadow saw width-changing map insert")
  | some _, _ => .error (.logicError "incremental compaction map shadow shape drifted")

/-- The part of `store_map_entry` that follows the growth. -/
def publishMapEntry (ownerId : ObjectId) (existing : Option ℕ) (key value : Value) :
    HeapM Unit := do
  let (_, _, descriptor) ← HeapM.query (·.checkedMap ownerId)
  let key ← HeapM.query (·.canonicalizeReference descriptor.keyIsRef key)
  let value ← HeapM.query (·.canonicalizeReference descriptor.valueIsRef value)
  incrementalWriteBarrierBeforePublish ownerId key
  incrementalWriteBarrierBeforePublish ownerId value
  let barrierTriggered ←
    recordMapWriteBarrierIfNeeded ownerId (if existing.isSome then none else some key) value
  let (slot, _, map) ← HeapM.query (·.checkedMap ownerId)
  let newMap ← HeapM.query fun h => map.store h existing key value
  let descriptor ← HeapM.query fun _ => validateDescriptorShape (.map newMap)
  modify (·.setPayload slot descriptor)
  HeapM.query (·.validateMapLookupIndex newMap)
  mirrorIntoShadow ownerId (mirrorMapEntry existing value)
  if barrierTriggered && (← get).stressConfig.collectMinorAfterEveryWriteBarrier then
    let _ ← collectImpl .minor [.object ownerId, key, value]
  else
    HeapM.query Heap.validateHeapStorageLayout
    HeapM.query Heap.validateRememberedSet

def storeMapEntry (id : ObjectId) (key value : Value) : HeapM Unit := do
  let existing ← HeapM.query (·.findMapEntry id key)
  let (_, _, map) ← HeapM.query (·.checkedMap id)
  HeapM.query (·.validateMapValue map value)
  let operands ←
    if existing.isSome then pure [.object id, key, value]
    else prepareMapInsertion id key value
  let ownerId ← HeapM.query fun _ => asObject (operands.getD 0 .nil)
  publishMapEntry ownerId existing (operands.getD 1 .nil) (operands.getD 2 .nil)

/-! ## Builders -/

/-- The loop of `builder_capacity_for_required`; the capacity doubles, so 32 rounds reach the
header limit. -/
def growBuilderCapacity (required : ℕ) : ℕ → ℕ → ℕ
  | 0, capacity => capacity
  | fuel + 1, capacity =>
    if capacity < required then
      growBuilderCapacity required fuel
        (if headerLimit / 2 < capacity then headerLimit else capacity * 2)
    else capacity

def builderCapacityForRequired (current required : ℕ) : Except HeapError ℕ :=
  if !isBuilderCapacity current then
    .error (.logicError "builder growth started outside the deterministic capacity ladder")
  else if headerLimit < required then
    .error (.lengthError "builder append exceeds object header limit")
  else .ok (growBuilderCapacity required 32 current)

/-- The mirror of a mutation of a builder. -/
def mirrorBuilder (capacity : ℕ) (bytes : List UInt8) : Payload → Except HeapError Payload
  | .builder shadowCapacity _ =>
    if shadowCapacity ≠ capacity then
      .error (.logicError "incremental compaction builder shadow shape drifted")
    else .ok (.builder shadowCapacity bytes)
  | _ => .error (.logicError "incremental compaction builder shadow shape drifted")

/-- Writes the bytes of a builder, with the checks that end every builder mutation. -/
def publishBuilder (ownerId : ObjectId) (slot capacity : ℕ) (bytes : List UInt8) :
    HeapM Unit := do
  let descriptor ← HeapM.query fun _ => validateDescriptorShape (.builder capacity bytes)
  modify (·.setPayload slot descriptor)
  mirrorIntoShadow ownerId fun _ _ => mirrorBuilder capacity bytes
  HeapM.query Heap.validateHeapStorageLayout

def builderClear (id : ObjectId) : HeapM Unit := do
  let owner ← HeapM.query (·.canonicalizeIncrementalCompactionRead (.object id))
  let ownerId ← HeapM.query fun _ => asObject owner
  let (slot, _, capacity, _) ← HeapM.query (·.checkedBuilder ownerId)
  publishBuilder ownerId slot capacity []

/-- Grows the storage of a builder to the capacity `required` bytes need; returns the owner
and the source. -/
def growBuilder (operands : List Value) : HeapM (List Value) := do
  let operands ← finishActiveCompaction operands
  let ownerId ← HeapM.query fun _ => asObject (operands.getD 0 .nil)
  let sourceId ← HeapM.query fun _ => asObject (operands.getD 1 .nil)
  let source ← HeapM.query (·.checkedString sourceId)
  let (_, _, capacity, bytes) ← HeapM.query (·.checkedBuilder ownerId)
  let grownCapacity ← HeapM.query fun _ =>
    builderCapacityForRequired capacity (bytes.length + source.length)
  let requiredWidth := 1 + (grownCapacity + kStorageSlotBytes - 1) / kStorageSlotBytes
  let operands ← ensureBuilderGrowthStorage ownerId requiredWidth operands
  let ownerId ← HeapM.query fun _ => asObject (operands.getD 0 .nil)
  let (slot, _, _, bytes) ← HeapM.query (·.checkedBuilder ownerId)
  let descriptor ← HeapM.query fun _ => validateDescriptorShape (.builder grownCapacity bytes)
  modify (·.setPayload slot descriptor)
  return operands

def builderAppend (id : ObjectId) (source : Value) : HeapM Unit := do
  let owner ← HeapM.query (·.canonicalizeIncrementalCompactionRead (.object id))
  let _ ← HeapM.query fun _ =>
    Object.requireObjectReferenceValue source "builder append operand"
  let source ← HeapM.query (·.canonicalizeIncrementalCompactionRead source)
  let sourceId ← HeapM.query fun _ => asObject source
  let ownerId ← HeapM.query fun _ => asObject owner
  let appended ← HeapM.query (·.checkedString sourceId)
  let (_, _, capacity, bytes) ← HeapM.query (·.checkedBuilder ownerId)
  if headerLimit - bytes.length < appended.length then
    throw (.lengthError "builder append exceeds object header limit")
  let operands ←
    if capacity < bytes.length + appended.length then growBuilder [owner, source]
    else pure [owner, source]
  let ownerId ← HeapM.query fun _ => asObject (operands.getD 0 .nil)
  let sourceId ← HeapM.query fun _ => asObject (operands.getD 1 .nil)
  let (slot, _, capacity, bytes) ← HeapM.query (·.checkedBuilder ownerId)
  let appended ← HeapM.query (·.checkedString sourceId)
  publishBuilder ownerId slot capacity (bytes ++ appended)

end LanguageRuntime.Gc
