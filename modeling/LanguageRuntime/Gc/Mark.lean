import LanguageRuntime.Gc.Validate

/-!
# Marking

The mark worklist and the ephemeron fixpoint
(`enqueue_mark_value .. process_ephemeron_fixpoint` of `src/gc/heap.cpp`). A worklist is a
stack with its top first.
-/

namespace LanguageRuntime.Gc

open LanguageRuntime

/-- The object is live as far as marking has come; a minor collection takes every old object
for live. -/
def Object.countsAsLive (kind : CollectionKind) (o : Object) : Bool :=
  (kind == .minor && o.isOld) || o.marked

namespace Heap

def enqueueMarkValue (h : Heap) (kind : CollectionKind) (worklist : List ObjectId)
    (value : Value) : Except HeapError (List ObjectId) :=
  match value with
  | .object id => do
    let (_, object) ← h.resolve id
    if kind = .minor ∧ !object.isYoung then return worklist
    if !object.marked then return id :: worklist
    return worklist
  | _ => .ok worklist

/-- Enqueues values one after the other. -/
def enqueueMarkValues (h : Heap) (kind : CollectionKind) (worklist : List ObjectId)
    (values : List Value) : Except HeapError (List ObjectId) :=
  values.foldlM (h.enqueueMarkValue kind) worklist

def enqueueYoungReferencesFromRememberedSet (h : Heap) (worklist : List ObjectId) :
    Except HeapError (List ObjectId) :=
  h.rememberedSet.foldlM (fun worklist remembered => do
    let (_, object) ← h.resolve remembered
    if !object.isOld then
      throw (.logicError "remembered-set entry does not name an old object")
    h.enqueueMarkValues .minor worklist object.payload.referenceFieldsForLifoMarking) worklist

/-- One ephemeron of a fixpoint pass: the worklist and whether the pass has progressed. -/
def activateEphemeron (h : Heap) (kind : CollectionKind)
    (state : List ObjectId × Bool) (ownerId : ObjectId) :
    Except HeapError (List ObjectId × Bool) := do
  let (_, owner) ← h.resolve ownerId
  match owner.payload with
  | .ephemeron (.object key) value valueIsRef =>
    if !owner.countsAsLive kind then return state
    let (_, keyObject) ← h.resolve key
    if !keyObject.countsAsLive kind then return state
    match valueIsRef, value with
    | true, .object valueId =>
      let (_, valueObject) ← h.resolve valueId
      if valueObject.countsAsLive kind then return state
      return (← h.enqueueMarkValue kind state.1 value, true)
    | _, _ => return state
  | _ => return state

end Heap

/-- `scan_next_mark_object`: the worklist after the next unmarked object has been scanned,
or nothing once the worklist is exhausted. -/
def scanNextMarkObject (kind : CollectionKind) :
    List ObjectId → HeapM (Option (List ObjectId))
  | [] => pure none
  | id :: worklist => do
    let (slot, object) ← HeapM.query (·.resolve id)
    if kind = .minor ∧ !object.isYoung then scanNextMarkObject kind worklist
    else if object.marked then scanNextMarkObject kind worklist
    else
      modify (·.putObject slot { object with marked := true })
      let worklist ← HeapM.query
        (·.enqueueMarkValues kind worklist object.payload.referenceFieldsForLifoMarking)
      return some worklist

/-- Scans at most `fuel` objects. -/
def drainMarkLoop (kind : CollectionKind) : ℕ → List ObjectId → HeapM Unit
  | 0, _ => pure ()
  | fuel + 1, worklist => do
    match ← scanNextMarkObject kind worklist with
    | none => pure ()
    | some worklist => drainMarkLoop kind fuel worklist

/-- `drain_mark_worklist`. Every scan marks one more object, so the loop is over before it
has run once more than there are slots. -/
def drainMarkWorklist (kind : CollectionKind) (worklist : List ObjectId) : HeapM Unit := do
  drainMarkLoop kind ((← get).objects.length + 1) worklist

/-- At most `fuel` passes of `process_ephemeron_fixpoint`. -/
def ephemeronFixpointLoop (kind : CollectionKind) : ℕ → List ObjectId → HeapM Unit
  | 0, _ => pure ()
  | fuel + 1, worklist => do
    let (worklist, progressed) ← HeapM.query fun h =>
      h.ephemerons.foldlM (h.activateEphemeron kind) (worklist, false)
    drainMarkWorklist kind worklist
    if progressed then ephemeronFixpointLoop kind fuel []

/-- `process_ephemeron_fixpoint`. Every pass but the last marks one more object. -/
def processEphemeronFixpoint (kind : CollectionKind) (worklist : List ObjectId) :
    HeapM Unit := do
  ephemeronFixpointLoop kind ((← get).objects.length + 1) worklist

end LanguageRuntime.Gc
