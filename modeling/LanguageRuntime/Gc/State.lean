import LanguageRuntime.Gc.ObjectTheorems
import LanguageRuntime.Library.Wp

/-!
# The state of the heap

The data members of `Heap` (`include/lang/gc/heap.hpp`), the identifiers of
`src/gc/heap.cpp` and the lookup `checked_slot`. Metrics, trace hooks and the `TEST_ONLY_`
switches take no part in what the heap computes and are left out.

The two incremental phases exclude each other (each refuses to start while the other is
active), so their flags and tables are one `Phase`.
-/

namespace LanguageRuntime.Gc

open LanguageRuntime

def kFirstGeneration : ℕ := 1

def kMaxGeneration : ℕ := 0x7FFFFFFF

/-- The slot numbers an identifier can hold. -/
def slotNumbers : ℕ := 2 ^ 32

/-- `make_object_id(static_cast<std::uint32_t>(slot), generation)`. -/
def makeObjectId (slot generation : ℕ) : ObjectId := ⟨slot % slotNumbers, generation⟩

def generationExhausted : HeapError := .overflowError "object id generation exhausted"

def nextGeneration (generation : ℕ) : Except HeapError ℕ :=
  if generation = kMaxGeneration then .error generationExhausted else .ok (generation + 1)

def generationForNewBase (generation : ℕ) : Except HeapError ℕ :=
  if generation = 0 then .ok kFirstGeneration else nextGeneration generation

/-- The generation of an object moved from `source` to the base slot `destination`, which has
reached `generation`: an object that stays keeps it. -/
def destinationGeneration (source destination generation : ℕ) : Except HeapError ℕ :=
  if source ≠ destination then generationForNewBase generation else .ok generation

/-- The stress switches the heap reads; the instruction intervals and step budgets belong
to the virtual machine. -/
structure StressConfig where
  collectBeforeEveryAllocation : Bool
  collectAfterEveryAllocation : Bool
  collectMinorAfterEveryWriteBarrier : Bool
deriving DecidableEq, Repr

/-- No stress switch is on. -/
def StressConfig.quiet : StressConfig := ⟨false, false, false⟩

inductive CollectionKind where
  | major
  | minor
deriving DecidableEq, Repr

structure InternEntry where
  contentHash : UInt64
  canonical : ObjectId
deriving DecidableEq, Repr

/-- A registered handle: `key` stands for the address of the handle's slot. -/
structure HandleRoot where
  key : ℕ
  slot : Value
deriving DecidableEq, Repr

/-- `ForwardingTable`: the new identifier of the object at each old slot. -/
abbrev ForwardingTable := List (Option ObjectId)

structure IncrementalCompactionEntry where
  sourceId : ObjectId
  sourceSlot : ℕ
  width : ℕ
  destinationId : ObjectId
  destinationSlot : ℕ
deriving DecidableEq, Repr

/-- The tables of an active incremental compaction. The destination generations of the
source live on in the destination identifiers of the plan. -/
structure IncrementalCompaction where
  plan : List IncrementalCompactionEntry
  cursor : ℕ
  forwarding : ForwardingTable
  sourceIds : List (Option ObjectId)
  shadowObjects : List (Option Object)
  shadowGenerations : List ℕ
  shadowWeakRefs : List ObjectId
  shadowInternTable : List InternEntry
  shadowEphemerons : List ObjectId
deriving DecidableEq

inductive Phase where
  | idle
  /-- Incremental marking, with the grey worklist (top of the stack first). -/
  | marking (worklist : List ObjectId)
  | compacting (state : IncrementalCompaction)
deriving DecidableEq

structure Heap where
  /-- The cells the root providers of an operation visit, in visiting order. They belong to
  the mutator, which may replace them between two operations. -/
  rootCells : List Value
  handleRoots : List HandleRoot
  stressConfig : StressConfig
  objects : List (Option Object)
  generations : List ℕ
  rememberedSet : List ObjectId
  weakRefs : List ObjectId
  internTable : List InternEntry
  ephemerons : List ObjectId
  phase : Phase
  /-- Ghost: the serial number of the next allocation. -/
  nextSerial : ℕ
  /-- Ghost: every identifier ever given to an object, with the object's serial number. -/
  issued : List (ObjectId × ℕ)
deriving DecidableEq

/-- The destination the compaction has recorded for a source identifier. -/
def IncrementalCompaction.forwarded (c : IncrementalCompaction) (id : ObjectId) :
    Option ObjectId :=
  if c.sourceIds.getD id.slot none = some id then c.forwarding.getD id.slot none else none

/-- An operation of the heap: a C++ member function that may throw, with the heap it leaves
behind in either case. -/
abbrev HeapM := EStateM HeapError Heap

namespace Heap

/-- A heap with no objects, roots or handles. -/
def empty (stressConfig : StressConfig) : Heap where
  rootCells := []
  handleRoots := []
  stressConfig := stressConfig
  objects := []
  generations := []
  rememberedSet := []
  weakRefs := []
  internTable := []
  ephemerons := []
  phase := .idle
  nextSerial := 0
  issued := []

/-- The object whose header is at a slot. -/
def objectAt (h : Heap) (slot : ℕ) : Option Object := h.objects.getD slot none

def generationAt (h : Heap) (slot : ℕ) : ℕ := h.generations.getD slot 0

/-- The identifier that names the object at `slot` now. -/
def currentId (h : Heap) (slot : ℕ) : ObjectId := makeObjectId slot (h.generationAt slot)

/-- Puts `object` at `slot`. -/
def putObject (h : Heap) (slot : ℕ) (object : Object) : Heap :=
  { h with objects := h.objects.set slot (some object) }

def incrementalMarkingActive (h : Heap) : Bool :=
  match h.phase with
  | .marking _ => true
  | _ => false

def incrementalCompactionActive (h : Heap) : Bool :=
  match h.phase with
  | .compacting _ => true
  | _ => false

/-! ## Lookup -/

/-- The lookup of `checked_slot` by slot and generation alone. -/
def lookup (h : Heap) (id : ObjectId) : Option Object :=
  if id.generation ≠ 0 ∧ h.generationAt id.slot = id.generation then h.objectAt id.slot else none

/-- `checked_slot`, together with the object found there. -/
def resolve (h : Heap) (id : ObjectId) : Except HeapError (ℕ × Object) :=
  match h.lookup id with
  | some object => .ok (id.slot, object)
  | none =>
    match h.phase with
    | .compacting c =>
      match c.forwarded id with
      | some forwarded =>
        match h.lookup forwarded with
        | some object => .ok (forwarded.slot, object)
        | none =>
          .error (.logicError "incremental compaction forwarding entry names no current object")
      | none => .error (.outOfRange "invalid or stale object id")
    | _ => .error (.outOfRange "invalid or stale object id")

def checkedSlot (h : Heap) (id : ObjectId) : Except HeapError ℕ := Prod.fst <$> h.resolve id

/-! The kind-checked lookups return the slot, the object and its payload. -/

def checkedPair (h : Heap) (id : ObjectId) :
    Except HeapError (ℕ × Object × Value × Value) := do
  let (slot, object) ← h.resolve id
  match object.payload with
  | .pair left right => return (slot, object, left, right)
  | _ => throw (.logicError "object is not a pair")

def checkedScalarArray (h : Heap) (id : ObjectId) :
    Except HeapError (ℕ × Object × List Int64) := do
  let (slot, object) ← h.resolve id
  match object.payload with
  | .scalarArray elements => return (slot, object, elements)
  | _ => throw (.logicError "object is not a scalar array")

def checkedRefArray (h : Heap) (id : ObjectId) :
    Except HeapError (ℕ × Object × List Value) := do
  let (slot, object) ← h.resolve id
  match object.payload with
  | .refArray elements => return (slot, object, elements)
  | _ => throw (.logicError "object is not a ref array")

def checkedString (h : Heap) (id : ObjectId) : Except HeapError (List UInt8) := do
  let (_, object) ← h.resolve id
  match object.payload with
  | .str bytes => return bytes
  | _ => throw (.logicError "object is not a string")

def checkedBuilder (h : Heap) (id : ObjectId) :
    Except HeapError (ℕ × Object × ℕ × List UInt8) := do
  let (slot, object) ← h.resolve id
  match object.payload with
  | .builder capacity bytes => return (slot, object, capacity, bytes)
  | _ => throw (.logicError "object is not a builder")

def checkedMap (h : Heap) (id : ObjectId) : Except HeapError (ℕ × Object × MapPayload) := do
  let (slot, object) ← h.resolve id
  match object.payload with
  | .map m => return (slot, object, m)
  | _ => throw (.logicError "object is not a map")

def checkedRecord (h : Heap) (id : ObjectId) :
    Except HeapError (ℕ × Object × ℕ × List Value × List Bool) := do
  let (slot, object) ← h.resolve id
  match object.payload with
  | .record layoutIndex fields refMap => return (slot, object, layoutIndex, fields, refMap)
  | _ => throw (.logicError "object is not a record")

def checkedEphemeron (h : Heap) (id : ObjectId) :
    Except HeapError (ℕ × Object × Value × Value × Bool) := do
  let (slot, object) ← h.resolve id
  match object.payload with
  | .ephemeron key value valueIsRef => return (slot, object, key, value, valueIsRef)
  | _ => throw (.logicError "object is not an ephemeron")

def checkedClosure (h : Heap) (id : ObjectId) :
    Except HeapError (ℕ × ℕ × List Value × List Bool) := do
  let (_, object) ← h.resolve id
  match object.payload with
  | .closure layoutIndex functionIndex captures captureMap =>
    return (layoutIndex, functionIndex, captures, captureMap)
  | _ => throw (.logicError "object is not a closure")

def checkedWeakRef (h : Heap) (id : ObjectId) : Except HeapError Value := do
  let (_, object) ← h.resolve id
  match object.payload with
  | .weakRef target => return target
  | _ => throw (.logicError "object is not a weak reference")

def checkedVariant (h : Heap) (id : ObjectId) :
    Except HeapError (ℕ × ℕ × List Value × List (List Bool)) := do
  let (_, object) ← h.resolve id
  match object.payload with
  | .variant layoutIndex caseIndex fields caseRefMaps =>
    return (layoutIndex, caseIndex, fields, caseRefMaps)
  | _ => throw (.logicError "object is not a variant")

def stringEqual (h : Heap) (left right : ObjectId) : Except HeapError Bool := do
  return (← h.checkedString left) == (← h.checkedString right)

end Heap

/-- Runs a `const` member function. -/
abbrev HeapM.query {α : Type} (f : Heap → Except HeapError α) : HeapM α := Library.query f

end LanguageRuntime.Gc
