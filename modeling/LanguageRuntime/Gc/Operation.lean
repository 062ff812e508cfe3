import LanguageRuntime.Gc.Mutate

/-!
# The public operations of the heap

The loads of `src/gc/heap.cpp`, and one type for the public operations, so that a run of the
heap is a sequence of operations the mutator chooses.
-/

namespace LanguageRuntime.Gc

open LanguageRuntime

/-! ## Loads -/

namespace Heap

def left (h : Heap) (id : ObjectId) : Except HeapError Value := do
  let (_, _, left, _) ← h.checkedPair id
  h.canonicalizeIncrementalCompactionRead left

def right (h : Heap) (id : ObjectId) : Except HeapError Value := do
  let (_, _, _, right) ← h.checkedPair id
  h.canonicalizeIncrementalCompactionRead right

def arrayLength (h : Heap) (id : ObjectId) : Except HeapError ℕ := do
  let (_, _, elements) ← h.checkedScalarArray id
  return elements.length

def arrayGet (h : Heap) (id : ObjectId) (index : ℕ) : Except HeapError Int64 := do
  let (_, _, elements) ← h.checkedScalarArray id
  match elements[index]? with
  | some element => return element
  | none => throw (.outOfRange "scalar array index out of bounds")

def refArrayLength (h : Heap) (id : ObjectId) : Except HeapError ℕ := do
  let (_, _, elements) ← h.checkedRefArray id
  return elements.length

def refArrayGet (h : Heap) (id : ObjectId) (index : ℕ) : Except HeapError Value := do
  let (_, _, elements) ← h.checkedRefArray id
  match elements[index]? with
  | some element => h.canonicalizeIncrementalCompactionRead element
  | none => throw (.outOfRange "ref array index out of bounds")

def stringLength (h : Heap) (id : ObjectId) : Except HeapError ℕ := do
  return (← h.checkedString id).length

def stringIndex (h : Heap) (id : ObjectId) (index : ℕ) : Except HeapError UInt8 := do
  match (← h.checkedString id)[index]? with
  | some byte => return byte
  | none => throw (.outOfRange "string index out of bounds")

def builderLength (h : Heap) (id : ObjectId) : Except HeapError ℕ := do
  let (_, _, _, bytes) ← h.checkedBuilder id
  return bytes.length

def closureLayoutIndex (h : Heap) (id : ObjectId) : Except HeapError ℕ := do
  return (← h.checkedClosure id).1

def closureFunctionIndex (h : Heap) (id : ObjectId) : Except HeapError ℕ := do
  return (← h.checkedClosure id).2.1

def closureCaptureCount (h : Heap) (id : ObjectId) : Except HeapError ℕ := do
  return (← h.checkedClosure id).2.2.1.length

/-- A field behind a reference bitmap: reference fields are canonicalized. -/
def loadMarkedField (h : Heap) (fields : List Value) (refMap : List Bool) (index : ℕ)
    (message : String) : Except HeapError Value :=
  match fields[index]? with
  | none => .error (.outOfRange message)
  | some value =>
    if refMap.getD index false then h.canonicalizeIncrementalCompactionRead value else .ok value

def closureCapture (h : Heap) (id : ObjectId) (index : ℕ) : Except HeapError Value := do
  let (_, _, captures, captureMap) ← h.checkedClosure id
  h.loadMarkedField captures captureMap index "closure capture index out of bounds"

def mapLayoutIndex (h : Heap) (id : ObjectId) : Except HeapError ℕ := do
  let (_, _, map) ← h.checkedMap id
  return map.layoutIndex

def mapLength (h : Heap) (id : ObjectId) : Except HeapError ℕ := do
  let (_, _, map) ← h.checkedMap id
  return map.entries.length

def mapHas (h : Heap) (id : ObjectId) (key : Value) : Except HeapError Bool := do
  return (← h.findMapEntry id key).isSome

def mapGet (h : Heap) (id : ObjectId) (key : Value) : Except HeapError Value := do
  match ← h.findMapEntry id key with
  | none => throw (.outOfRange "map key not found")
  | some entry =>
    let (_, _, map) ← h.checkedMap id
    h.canonicalizeReference map.valueIsRef ((map.entries[entry]?.map MapEntry.value).getD .nil)

def mapKeyAt (h : Heap) (id : ObjectId) (index : ℕ) : Except HeapError Value := do
  let (_, _, map) ← h.checkedMap id
  match map.entries[index]? with
  | none => throw (.outOfRange "map entry index out of bounds")
  | some entry => h.canonicalizeReference map.keyIsRef entry.key

def mapValueAt (h : Heap) (id : ObjectId) (index : ℕ) : Except HeapError Value := do
  let (_, _, map) ← h.checkedMap id
  match map.entries[index]? with
  | none => throw (.outOfRange "map entry index out of bounds")
  | some entry => h.canonicalizeReference map.valueIsRef entry.value

def weakGet (h : Heap) (id : ObjectId) : Except HeapError Value := do
  h.canonicalizeIncrementalCompactionRead (← h.checkedWeakRef id)

def ephemeronKey (h : Heap) (id : ObjectId) : Except HeapError Value := do
  let (_, _, key, _, _) ← h.checkedEphemeron id
  h.canonicalizeIncrementalCompactionRead key

def ephemeronValue (h : Heap) (id : ObjectId) : Except HeapError Value := do
  let (_, _, _, value, valueIsRef) ← h.checkedEphemeron id
  h.canonicalizeReference valueIsRef value

def recordLayoutIndex (h : Heap) (id : ObjectId) : Except HeapError ℕ := do
  let (_, _, layoutIndex, _, _) ← h.checkedRecord id
  return layoutIndex

def recordFieldCount (h : Heap) (id : ObjectId) : Except HeapError ℕ := do
  let (_, _, _, fields, _) ← h.checkedRecord id
  return fields.length

def recordGet (h : Heap) (id : ObjectId) (index : ℕ) : Except HeapError Value := do
  let (_, _, _, fields, refMap) ← h.checkedRecord id
  h.loadMarkedField fields refMap index "record field index out of bounds"

def variantLayoutIndex (h : Heap) (id : ObjectId) : Except HeapError ℕ := do
  return (← h.checkedVariant id).1

def variantTag (h : Heap) (id : ObjectId) : Except HeapError ℕ := do
  return (← h.checkedVariant id).2.1

def variantFieldCount (h : Heap) (id : ObjectId) : Except HeapError ℕ := do
  return (← h.checkedVariant id).2.2.1.length

def variantGet (h : Heap) (id : ObjectId) (index : ℕ) : Except HeapError Value := do
  let (_, caseIndex, fields, caseRefMaps) ← h.checkedVariant id
  h.loadMarkedField fields (caseRefMaps.getD caseIndex []) index
    "variant field index out of bounds"

end Heap

/-- A public operation that only reads the heap. -/
inductive Load where
  | left (id : ObjectId)
  | right (id : ObjectId)
  | arrayLength (id : ObjectId)
  | arrayGet (id : ObjectId) (index : ℕ)
  | refArrayLength (id : ObjectId)
  | refArrayGet (id : ObjectId) (index : ℕ)
  | stringLength (id : ObjectId)
  | stringIndex (id : ObjectId) (index : ℕ)
  | stringEqual (id other : ObjectId)
  | builderLength (id : ObjectId)
  | closureLayoutIndex (id : ObjectId)
  | closureFunctionIndex (id : ObjectId)
  | closureCaptureCount (id : ObjectId)
  | closureCapture (id : ObjectId) (index : ℕ)
  | mapLayoutIndex (id : ObjectId)
  | mapLength (id : ObjectId)
  | mapHas (id : ObjectId) (key : Value)
  | mapGet (id : ObjectId) (key : Value)
  | mapKeyAt (id : ObjectId) (index : ℕ)
  | mapValueAt (id : ObjectId) (index : ℕ)
  | weakGet (id : ObjectId)
  | ephemeronKey (id : ObjectId)
  | ephemeronValue (id : ObjectId)
  | recordLayoutIndex (id : ObjectId)
  | recordFieldCount (id : ObjectId)
  | recordGet (id : ObjectId) (index : ℕ)
  | variantLayoutIndex (id : ObjectId)
  | variantTag (id : ObjectId)
  | variantFieldCount (id : ObjectId)
  | variantGet (id : ObjectId) (index : ℕ)
deriving DecidableEq, Repr

/-- What a load returns. -/
inductive Loaded where
  | value (value : Value)
  | count (count : ℕ)
  | scalar (element : Int64)
  | byte (byte : UInt8)
  | flag (flag : Bool)
deriving DecidableEq, Repr

namespace Load

def run (h : Heap) : Load → Except HeapError Loaded
  | left id => .value <$> h.left id
  | right id => .value <$> h.right id
  | arrayLength id => .count <$> h.arrayLength id
  | arrayGet id index => .scalar <$> h.arrayGet id index
  | refArrayLength id => .count <$> h.refArrayLength id
  | refArrayGet id index => .value <$> h.refArrayGet id index
  | stringLength id => .count <$> h.stringLength id
  | stringIndex id index => .byte <$> h.stringIndex id index
  | stringEqual id other => .flag <$> h.stringEqual id other
  | builderLength id => .count <$> h.builderLength id
  | closureLayoutIndex id => .count <$> h.closureLayoutIndex id
  | closureFunctionIndex id => .count <$> h.closureFunctionIndex id
  | closureCaptureCount id => .count <$> h.closureCaptureCount id
  | closureCapture id index => .value <$> h.closureCapture id index
  | mapLayoutIndex id => .count <$> h.mapLayoutIndex id
  | mapLength id => .count <$> h.mapLength id
  | mapHas id key => .flag <$> h.mapHas id key
  | mapGet id key => .value <$> h.mapGet id key
  | mapKeyAt id index => .value <$> h.mapKeyAt id index
  | mapValueAt id index => .value <$> h.mapValueAt id index
  | weakGet id => .value <$> h.weakGet id
  | ephemeronKey id => .value <$> h.ephemeronKey id
  | ephemeronValue id => .value <$> h.ephemeronValue id
  | recordLayoutIndex id => .count <$> h.recordLayoutIndex id
  | recordFieldCount id => .count <$> h.recordFieldCount id
  | recordGet id index => .value <$> h.recordGet id index
  | variantLayoutIndex id => .count <$> h.variantLayoutIndex id
  | variantTag id => .count <$> h.variantTag id
  | variantFieldCount id => .count <$> h.variantFieldCount id
  | variantGet id index => .value <$> h.variantGet id index

/-- The load with other names for the objects it reads. -/
def mapIds (f : ObjectId → ObjectId) : Load → Load
  | left id => left (f id)
  | right id => right (f id)
  | arrayLength id => arrayLength (f id)
  | arrayGet id index => arrayGet (f id) index
  | refArrayLength id => refArrayLength (f id)
  | refArrayGet id index => refArrayGet (f id) index
  | stringLength id => stringLength (f id)
  | stringIndex id index => stringIndex (f id) index
  | stringEqual id other => stringEqual (f id) (f other)
  | builderLength id => builderLength (f id)
  | closureLayoutIndex id => closureLayoutIndex (f id)
  | closureFunctionIndex id => closureFunctionIndex (f id)
  | closureCaptureCount id => closureCaptureCount (f id)
  | closureCapture id index => closureCapture (f id) index
  | mapLayoutIndex id => mapLayoutIndex (f id)
  | mapLength id => mapLength (f id)
  | mapHas id key => mapHas (f id) (key.mapObject f)
  | mapGet id key => mapGet (f id) (key.mapObject f)
  | mapKeyAt id index => mapKeyAt (f id) index
  | mapValueAt id index => mapValueAt (f id) index
  | weakGet id => weakGet (f id)
  | ephemeronKey id => ephemeronKey (f id)
  | ephemeronValue id => ephemeronValue (f id)
  | recordLayoutIndex id => recordLayoutIndex (f id)
  | recordFieldCount id => recordFieldCount (f id)
  | recordGet id index => recordGet (f id) index
  | variantLayoutIndex id => variantLayoutIndex (f id)
  | variantTag id => variantTag (f id)
  | variantFieldCount id => variantFieldCount (f id)
  | variantGet id index => variantGet (f id) index

end Load

/-! ## Operations -/

/-- The public operations that can change the heap. -/
inductive Operation where
  | allocatePair (left right : Value)
  | allocateScalarArray (length : ℕ) (init : Int64)
  | allocateRefArray (length : ℕ) (init : Value)
  | allocateString (bytes : List UInt8)
  | allocateStringConcat (left right : Value)
  | allocateStringSubstring (source : Value) (lo hi : ℕ)
  | internString (source : Value)
  | allocateClosure (layoutIndex functionIndex : ℕ) (captures : List Value)
      (captureMap : List Bool)
  | allocateMap (layoutIndex : ℕ) (keyIsRef valueIsRef : Bool)
  | allocateWeak (target : Value)
  | allocateEphemeron (key value : Value) (valueIsRef : Bool)
  | allocateBuilder
  | builderToString (builder : Value)
  | allocateRecord (layoutIndex : ℕ) (fields : List Value) (refMap : List Bool)
  | allocateVariant (layoutIndex caseIndex : ℕ) (fields : List Value)
      (caseRefMaps : List (List Bool))
  | setField (id : ObjectId) (field : PairField) (value : Value)
  | arraySet (id : ObjectId) (index : ℕ) (value : Int64)
  | refArraySet (id : ObjectId) (index : ℕ) (value : Value)
  | mapSet (id : ObjectId) (key value : Value)
  | recordSet (id : ObjectId) (index : ℕ) (value : Value)
  | ephemeronSetValue (id : ObjectId) (value : Value)
  | builderAppend (id : ObjectId) (source : Value)
  | builderClear (id : ObjectId)
  | makeHandle (key : ℕ) (value : Value)
  | releaseHandle (key : ℕ)
  | moveHandle (source destination : ℕ)
  | setStressConfig (config : StressConfig)
  | collect
  | collectMinor
  | startIncrementalMarking
  | incrementalMarkStep (budget : ℕ)
  | finishIncrementalMarking
  | finishIncrementalMarkingToIncrementalCompaction
  | startIncrementalCompaction
  | incrementalCompactStep (budget : ℕ)
  | finishIncrementalCompaction
deriving DecidableEq, Repr

namespace Operation

/-- Runs an operation; allocators and `intern_string` return the identifier they hand out. -/
def run : Operation → HeapM (Option ObjectId)
  | allocatePair left right => some <$> Gc.allocatePair left right
  | allocateScalarArray length init => some <$> Gc.allocateScalarArray length init
  | allocateRefArray length init => some <$> Gc.allocateRefArray length init
  | allocateString bytes => some <$> Gc.allocateString bytes
  | allocateStringConcat left right => some <$> Gc.allocateStringConcat left right
  | allocateStringSubstring source lo hi => some <$> Gc.allocateStringSubstring source lo hi
  | internString source => some <$> Gc.internString source
  | allocateClosure l fn captures captureMap =>
    some <$> Gc.allocateClosure l fn captures captureMap
  | allocateMap l keyIsRef valueIsRef => some <$> Gc.allocateMap l keyIsRef valueIsRef
  | allocateWeak target => some <$> Gc.allocateWeak target
  | allocateEphemeron key value valueIsRef =>
    some <$> Gc.allocateEphemeron key value valueIsRef
  | allocateBuilder => some <$> Gc.allocateBuilder
  | builderToString builder => some <$> Gc.builderToString builder
  | allocateRecord l fields refMap => some <$> Gc.allocateRecord l fields refMap
  | allocateVariant l c fields caseRefMaps => some <$> Gc.allocateVariant l c fields caseRefMaps
  | setField id field value => do storePairField id field value; return none
  | arraySet id index value => do Gc.arraySet id index value; return none
  | refArraySet id index value => do storeRefArrayElement id index value; return none
  | mapSet id key value => do storeMapEntry id key value; return none
  | recordSet id index value => do storeRecordField id index value; return none
  | ephemeronSetValue id value => do storeEphemeronValue id value; return none
  | builderAppend id source => do Gc.builderAppend id source; return none
  | builderClear id => do Gc.builderClear id; return none
  | makeHandle key value => do Gc.makeHandle key value; return none
  | releaseHandle key => do Gc.releaseHandle key; return none
  | moveHandle source destination => do Gc.moveHandle source destination; return none
  | setStressConfig config => do
    modify fun h => { h with stressConfig := config }
    return none
  | collect => do let _ ← collectImpl .major []; return none
  | collectMinor => do let _ ← collectImpl .minor []; return none
  | startIncrementalMarking => do Gc.startIncrementalMarking; return none
  | incrementalMarkStep budget => do let _ ← Gc.incrementalMarkStep budget; return none
  | finishIncrementalMarking => do let _ ← finishIncrementalMarkingImpl []; return none
  | finishIncrementalMarkingToIncrementalCompaction => do
    Gc.finishIncrementalMarkingToIncrementalCompaction
    return none
  | startIncrementalCompaction => do Gc.startIncrementalCompaction; return none
  | incrementalCompactStep budget => do
    let _ ← incrementalCompactStepImpl budget []
    return none
  | finishIncrementalCompaction => do let _ ← finishIncrementalCompactionImpl []; return none

/-- The identifiers an operation is called with. -/
def arguments : Operation → List Value
  | allocatePair left right => [left, right]
  | allocateRefArray _ init => [init]
  | allocateStringConcat left right => [left, right]
  | allocateStringSubstring source _ _ => [source]
  | internString source => [source]
  | allocateClosure _ _ captures _ => captures
  | allocateWeak target => [target]
  | allocateEphemeron key value _ => [key, value]
  | builderToString builder => [builder]
  | allocateRecord _ fields _ => fields
  | allocateVariant _ _ fields _ => fields
  | setField id _ value => [.object id, value]
  | arraySet id _ _ => [.object id]
  | refArraySet id _ value => [.object id, value]
  | mapSet id key value => [.object id, key, value]
  | recordSet id _ value => [.object id, value]
  | ephemeronSetValue id value => [.object id, value]
  | builderAppend id source => [.object id, source]
  | builderClear id => [.object id]
  | makeHandle _ value => [value]
  | _ => []

/-- The operation with other names for the objects it is called with. -/
def mapIds (f : ObjectId → ObjectId) : Operation → Operation
  | allocatePair left right => allocatePair (left.mapObject f) (right.mapObject f)
  | allocateRefArray length init => allocateRefArray length (init.mapObject f)
  | allocateStringConcat left right => allocateStringConcat (left.mapObject f) (right.mapObject f)
  | allocateStringSubstring source lo hi => allocateStringSubstring (source.mapObject f) lo hi
  | internString source => internString (source.mapObject f)
  | allocateClosure layoutIndex functionIndex captures captureMap =>
    allocateClosure layoutIndex functionIndex (captures.map (Value.mapObject f)) captureMap
  | allocateWeak target => allocateWeak (target.mapObject f)
  | allocateEphemeron key value valueIsRef =>
    allocateEphemeron (key.mapObject f) (value.mapObject f) valueIsRef
  | builderToString builder => builderToString (builder.mapObject f)
  | allocateRecord layoutIndex fields refMap =>
    allocateRecord layoutIndex (fields.map (Value.mapObject f)) refMap
  | allocateVariant layoutIndex caseIndex fields caseRefMaps =>
    allocateVariant layoutIndex caseIndex (fields.map (Value.mapObject f)) caseRefMaps
  | setField id field value => setField (f id) field (value.mapObject f)
  | arraySet id index value => arraySet (f id) index value
  | refArraySet id index value => refArraySet (f id) index (value.mapObject f)
  | mapSet id key value => mapSet (f id) (key.mapObject f) (value.mapObject f)
  | recordSet id index value => recordSet (f id) index (value.mapObject f)
  | ephemeronSetValue id value => ephemeronSetValue (f id) (value.mapObject f)
  | builderAppend id source => builderAppend (f id) (source.mapObject f)
  | builderClear id => builderClear (f id)
  | makeHandle key value => makeHandle key (value.mapObject f)
  | op => op

end Operation

/-! ## Runs -/

/-- What can happen to a heap: the mutator replaces the cells of its root providers, or calls
a public operation. -/
inductive Action where
  | setRoots (cells : List Value)
  | call (op : Operation)
deriving DecidableEq, Repr

namespace Action

def step : Action → HeapM (Option ObjectId)
  | setRoots cells => do
    modify fun h => { h with rootCells := cells }
    return none
  | call op => op.run

/-- The heap an action leaves behind, whether it returns or throws. -/
def after (action : Action) (h : Heap) : Heap :=
  match action.step h with
  | .ok _ h' => h'
  | .error _ h' => h'

end Action

/-- The heap after a sequence of actions. -/
def Heap.run (h : Heap) (actions : List Action) : Heap :=
  actions.foldl (fun h action => action.after h) h

end LanguageRuntime.Gc
