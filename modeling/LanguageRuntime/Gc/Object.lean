import LanguageRuntime.Value

/-!
# Heap objects

`Object` of `include/lang/gc/heap.hpp`: the collector header (mark bit, age) and one of
eleven payloads. The source keeps the fields of every kind side by side and checks in
`validate_descriptor_shape` that the fields of the other kinds are empty; here the payload
is a sum over the kinds, and what is left of that check is `Payload.descriptorError`. An
`Object` carries the proof that its descriptor passes it, so that a visitor never meets a
malformed object.
-/

namespace LanguageRuntime.Gc

open LanguageRuntime

/-- `std::numeric_limits<std::uint32_t>::max()`, the largest length a header holds. -/
def headerLimit : ℕ := 2 ^ 32 - 1

def kStorageSlotBytes : ℕ := 8

def kBuilderInitialCapacity : ℕ := 8

inductive ObjectGeneration where
  | young
  | old
deriving DecidableEq, Repr

inductive ObjectKind where
  | pair
  | scalarArray
  | refArray
  | str
  | closure
  | map
  | weakRef
  | record
  | variant
  | ephemeron
  | builder
deriving DecidableEq, Repr

structure MapEntry where
  key : Value
  value : Value
deriving DecidableEq, Repr

/-- The ordered entries of a map and the index that finds them by the hash of their key. -/
structure MapPayload where
  layoutIndex : ℕ
  keyIsRef : Bool
  valueIsRef : Bool
  entries : List MapEntry
  lookupIndex : List ℕ
deriving DecidableEq, Repr

/-- The payload of an object. The header field `length` of the source is the length of
the list the payload holds. -/
inductive Payload where
  | pair (left right : Value)
  | scalarArray (scalarElements : List Int64)
  | refArray (refElements : List Value)
  | str (stringBytes : List UInt8)
  | closure (layoutIndex functionIndex : ℕ) (captures : List Value) (captureMap : List Bool)
  | map (map : MapPayload)
  | weakRef (target : Value)
  | record (layoutIndex : ℕ) (fields : List Value) (refMap : List Bool)
  | variant (layoutIndex caseIndex : ℕ) (fields : List Value) (caseRefMaps : List (List Bool))
  | ephemeron (key value : Value) (valueIsRef : Bool)
  | builder (capacity : ℕ) (bytes : List UInt8)
deriving DecidableEq, Repr

namespace Payload

def kind : Payload → ObjectKind
  | pair .. => .pair
  | scalarArray .. => .scalarArray
  | refArray .. => .refArray
  | str .. => .str
  | closure .. => .closure
  | map .. => .map
  | weakRef .. => .weakRef
  | record .. => .record
  | variant .. => .variant
  | ephemeron .. => .ephemeron
  | builder .. => .builder

/-- `storage_slot_count`: the number of slots the object reserves. -/
def storageSlotCount : Payload → ℕ
  | pair .. => 1
  | scalarArray elements => if elements.length = 0 then 1 else elements.length
  | refArray elements => if elements.length = 0 then 1 else elements.length
  | str bytes => 1 + (bytes.length + kStorageSlotBytes - 1) / kStorageSlotBytes
  | closure _ _ captures _ => 1 + captures.length
  | map m => 1 + 2 * m.entries.length
  | weakRef _ => 1
  | record _ fields _ => 1 + fields.length
  | variant _ _ fields _ => 2 + fields.length
  | ephemeron .. => 1
  | builder capacity _ => 1 + (capacity + kStorageSlotBytes - 1) / kStorageSlotBytes

theorem storageSlotCount_pos (p : Payload) : 0 < p.storageSlotCount := by
  cases p <;> simp only [storageSlotCount, kStorageSlotBytes] <;> first | omega | (split <;> omega)

end Payload

/-! ## The descriptor check -/

def isBuilderCapacity (capacity : ℕ) : Bool :=
  capacity == headerLimit ||
    (decide (kBuilderInitialCapacity ≤ capacity) && capacity &&& (capacity - 1) == 0)

/-- The tag check of closures, records and variants: a payload slot the bitmap marks holds
an object or nil, any other slot holds what `scalar` admits. -/
def referenceMapError (bitmap : String) (scalar : Value → Bool) :
    List Value → List Bool → Option String
  | v :: fields, isRef :: refMap =>
    if isRef then
      if v.isReference then referenceMapError bitmap scalar fields refMap
      else some (bitmap ++ " marks a scalar payload as a reference")
    else if scalar v then referenceMapError bitmap scalar fields refMap
    else some (bitmap ++ " marks a reference payload as scalar")
  | _, _ => none

/-- The tag check of one map entry against the layout of its map. -/
def mapEntryError (keyIsRef valueIsRef : Bool) (entry : MapEntry) : Option String :=
  if keyIsRef && !entry.key.isObject then
    some "map descriptor marks a scalar key slot as a reference"
  else if !keyIsRef && !entry.key.isScalar then
    some "map descriptor marks a reference key slot as scalar"
  else if valueIsRef && !entry.value.isReference then
    some "map descriptor marks a scalar value slot as a reference"
  else if !valueIsRef && !entry.value.isScalar then
    some "map descriptor marks a reference value slot as scalar"
  else none

namespace Payload

/-- `validate_descriptor_shape`: the message it throws, if it throws. -/
def descriptorError : Payload → Option String
  | closure _ _ captures captureMap =>
    if captures.length ≠ captureMap.length then
      some "closure descriptor length does not match capture-map payload"
    else referenceMapError "closure capture map" (!·.isObject) captures captureMap
  | map m => m.entries.findSome? (mapEntryError m.keyIsRef m.valueIsRef)
  | weakRef target =>
    if target.isReference then none
    else some "weak reference descriptor does not match collector-owned target slot"
  | record _ fields refMap =>
    if fields.length ≠ refMap.length then
      some "record descriptor length does not match layout payload"
    else referenceMapError "record reference bitmap" Value.isScalar fields refMap
  | variant _ caseIndex fields caseRefMaps =>
    match caseRefMaps[caseIndex]? with
    | none => some "variant case tag out of range"
    | some refMap =>
      if refMap.length ≠ fields.length then
        some "variant payload width does not match selected case"
      else referenceMapError "variant reference bitmap" Value.isScalar fields refMap
  | ephemeron key value valueIsRef =>
    if !key.isReference then some "ephemeron descriptor does not match registry payload"
    else if key.isNil && !value.isNil then some "cleared ephemeron retains a value"
    else if valueIsRef then
      if value.isReference then none else some "ephemeron reference value has scalar tag"
    else if !key.isNil && !value.isScalar then
      some "ephemeron scalar value has reference tag"
    else none
  | builder capacity bytes =>
    if capacity < bytes.length then
      some "builder logical length exceeds deterministic capacity"
    else if !isBuilderCapacity capacity then
      some "builder capacity is outside the deterministic growth ladder"
    else none
  | _ => none

/-- The descriptor passes `validate_descriptor_shape`. -/
def DescriptorShape (p : Payload) : Prop := p.descriptorError = none

instance (p : Payload) : Decidable p.DescriptorShape :=
  inferInstanceAs (Decidable (p.descriptorError = none))

end Payload

/-- A heap object: the collector header and a payload of the shape its kind demands. -/
structure Object where
  marked : Bool
  generation : ObjectGeneration
  payload : Payload
  shape : payload.DescriptorShape
  /-- Ghost: the number of the allocation that created the object. Nothing reads it; every
  copy the collector makes carries it along. -/
  serial : ℕ
deriving DecidableEq

/-- `validate_descriptor_shape` on a payload that was just built or mutated. -/
def validateDescriptorShape (p : Payload) :
    Except HeapError {p : Payload // p.DescriptorShape} :=
  if h : p.DescriptorShape then .ok ⟨p, h⟩
  else .error (.logicError (p.descriptorError.getD ""))

theorem validateDescriptorShape_of_shape {p : Payload} (h : p.DescriptorShape) :
    validateDescriptorShape p = .ok ⟨p, h⟩ := dif_pos h

/-! ## Constructors -/

/-- A payload with the proof that it passes the descriptor check. -/
abbrev Descriptor := {p : Payload // p.DescriptorShape}

namespace Object

def pair (left right : Value) : Descriptor := ⟨.pair left right, rfl⟩

def scalarArray (length : ℕ) (init : Int64) : Except HeapError Descriptor :=
  if headerLimit < length then
    .error (.lengthError "scalar array length exceeds object header limit")
  else .ok ⟨.scalarArray (List.replicate length init), rfl⟩

def requireObjectReferenceValue (v : Value) (context : String) : Except HeapError ObjectId :=
  match v with
  | .object id => .ok id
  | _ => .error (.logicError (context ++ " must be an object reference"))

def refArray (length : ℕ) (init : Value) : Except HeapError Descriptor := do
  if headerLimit < length then
    throw (.lengthError "ref array length exceeds object header limit")
  let _ ← requireObjectReferenceValue init "ref array init value"
  return ⟨.refArray (List.replicate length init), rfl⟩

def string (bytes : List UInt8) : Except HeapError Descriptor :=
  if headerLimit < bytes.length then
    .error (.lengthError "string length exceeds object header limit")
  else .ok ⟨.str bytes, rfl⟩

def builder : Descriptor := ⟨.builder kBuilderInitialCapacity [], by decide⟩

def closure (layoutIndex functionIndex : ℕ) (captures : List Value) (captureMap : List Bool) :
    Except HeapError Descriptor :=
  if headerLimit < captures.length then
    .error (.lengthError "closure capture count exceeds object header limit")
  else if headerLimit < layoutIndex ∨ headerLimit < functionIndex then
    .error (.lengthError "closure metadata index exceeds object header limit")
  else validateDescriptorShape (.closure layoutIndex functionIndex captures captureMap)

def map (layoutIndex : ℕ) (keyIsRef valueIsRef : Bool) : Except HeapError Descriptor :=
  if headerLimit < layoutIndex then
    .error (.lengthError "map layout index exceeds object header limit")
  else .ok ⟨.map ⟨layoutIndex, keyIsRef, valueIsRef, [], []⟩, rfl⟩

def weakRef (target : Value) : Except HeapError Descriptor := do
  let id ← requireObjectReferenceValue target "weak reference target"
  return ⟨.weakRef (.object id), rfl⟩

def ephemeron (key value : Value) (valueIsRef : Bool) : Except HeapError Descriptor := do
  let _ ← requireObjectReferenceValue key "ephemeron key"
  if valueIsRef then
    if !value.isReference then
      throw (.logicError "ephemeron reference value must be object or nil")
  else if !value.isScalar then
    throw (.logicError "ephemeron scalar value must be i64 or bool")
  validateDescriptorShape (.ephemeron key value valueIsRef)

def record (layoutIndex : ℕ) (fields : List Value) (refMap : List Bool) :
    Except HeapError Descriptor :=
  if headerLimit < fields.length then
    .error (.lengthError "record field count exceeds object header limit")
  else if headerLimit < layoutIndex then
    .error (.lengthError "record layout index exceeds object header limit")
  else validateDescriptorShape (.record layoutIndex fields refMap)

def variant (layoutIndex caseIndex : ℕ) (fields : List Value) (caseRefMaps : List (List Bool)) :
    Except HeapError Descriptor :=
  match caseRefMaps[caseIndex]? with
  | none => .error (.logicError "variant case tag out of range")
  | some refMap =>
    if refMap.length ≠ fields.length then
      .error (.logicError "variant payload width does not match selected case")
    else if headerLimit < fields.length then
      .error (.lengthError "variant field count exceeds object header limit")
    else if headerLimit < layoutIndex then
      .error (.lengthError "variant layout index exceeds object header limit")
    else if headerLimit < caseIndex then
      .error (.lengthError "variant case tag exceeds object header limit")
    else validateDescriptorShape (.variant layoutIndex caseIndex fields caseRefMaps)

end Object

/-! ## Visiting the reference fields -/

/-- The fields a bitmap marks as references. -/
def markedFields : List Value → List Bool → List Value
  | v :: fields, isRef :: refMap =>
    if isRef then v :: markedFields fields refMap else markedFields fields refMap
  | _, _ => []

/-- Rewrites the fields a bitmap marks as references. -/
def mapMarkedFields (f : ObjectId → ObjectId) : List Value → List Bool → List Value
  | v :: fields, isRef :: refMap =>
    (if isRef then v.mapObject f else v) :: mapMarkedFields f fields refMap
  | fields, _ => fields

def MapEntry.referenceFields (keyIsRef valueIsRef : Bool) (entry : MapEntry) : List Value :=
  (if keyIsRef then [entry.key] else []) ++ (if valueIsRef then [entry.value] else [])

def MapEntry.mapReferenceFields (f : ObjectId → ObjectId) (keyIsRef valueIsRef : Bool)
    (entry : MapEntry) : MapEntry where
  key := if keyIsRef then entry.key.mapObject f else entry.key
  value := if valueIsRef then entry.value.mapObject f else entry.value

namespace Payload

/-- `visit_reference_fields`: the strong fields, in the order they are visited. -/
def referenceFields : Payload → List Value
  | pair left right => [left, right]
  | refArray elements => elements
  | closure _ _ captures captureMap => markedFields captures captureMap
  | map m => m.entries.flatMap (MapEntry.referenceFields m.keyIsRef m.valueIsRef)
  | record _ fields refMap => markedFields fields refMap
  | variant _ caseIndex fields caseRefMaps => markedFields fields (caseRefMaps.getD caseIndex [])
  | _ => []

/-- `visit_reference_fields_for_lifo_marking`: the same fields, last one first. -/
def referenceFieldsForLifoMarking (p : Payload) : List Value := p.referenceFields.reverse

/-- The fields only the weak and ephemeron passes visit. -/
def weakFields : Payload → List Value
  | weakRef target => [target]
  | ephemeron key value valueIsRef => key :: (if valueIsRef then [value] else [])
  | _ => []

/-- Rewrites every field `visit_reference_fields` visits. -/
def mapReferenceFields (f : ObjectId → ObjectId) : Payload → Payload
  | pair left right => pair (left.mapObject f) (right.mapObject f)
  | refArray elements => refArray (elements.map (Value.mapObject f))
  | closure l fn captures captureMap => closure l fn (mapMarkedFields f captures captureMap) captureMap
  | map m => map { m with
      entries := m.entries.map (MapEntry.mapReferenceFields f m.keyIsRef m.valueIsRef) }
  | record l fields refMap => record l (mapMarkedFields f fields refMap) refMap
  | variant l c fields caseRefMaps =>
    variant l c (mapMarkedFields f fields (caseRefMaps.getD c [])) caseRefMaps
  | p => p

/-- Forwards the target of a weak reference, clearing it when `f` has no destination. -/
def forwardWeakTarget (f : ObjectId → Option ObjectId) : Payload → Payload
  | weakRef (.object target) => weakRef ((f target).elim .nil .object)
  | p => p

/-- Forwards the key and the value of an ephemeron, clearing both when the key has no
destination. -/
def forwardEphemeron (f : ObjectId → Option ObjectId) : Payload → Payload
  | ephemeron (.object key) value valueIsRef =>
    match f key with
    | none => ephemeron .nil .nil valueIsRef
    | some key' =>
      ephemeron (.object key')
        (if valueIsRef then value.mapObject fun id => (f id).getD id else value) valueIsRef
  | p => p

end Payload

end LanguageRuntime.Gc
