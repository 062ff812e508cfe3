import LanguageRuntime.Gc.MoveTheorems
import LanguageRuntime.Gc.Operation

/-!
# The object store a heap stands for

What a mutator may think of a heap: a store of numbered objects that never move. An object is
known by its number and keeps it for life, a map is the list of its entries and a builder the list
of its bytes. Between two operations the store may lose objects that its roots do not lead to,
and then the weak references to them are cleared.
-/

namespace LanguageRuntime.Gc

open LanguageRuntime

/-- The name of an object in a store is its number. No heap hands out the generation 0. -/
def numbered (k : ℕ) : ObjectId := ⟨k, 0⟩

@[simp] theorem numbered_slot (k : ℕ) : (numbered k).slot = k := rfl

@[simp] theorem numbered_inj {k k' : ℕ} : numbered k = numbered k' ↔ k = k' :=
  ⟨fun h => congrArg ObjectId.slot h, fun h => h ▸ rfl⟩

/-- A payload without the lookup index of a map and the capacity of a builder. -/
def Payload.visible : Payload → Payload
  | .map m => .map { m with lookupIndex := [] }
  | .builder _ bytes => .builder 0 bytes
  | p => p

/-- The objects by their numbers, the values the roots hold and those the handles hold, the numbers
of the canonical strings, and a bound of the numbers that have been given out. -/
structure Store where
  objects : ℕ → Option Payload
  roots : List Value
  handles : List HandleRoot
  interned : ℕ → Prop
  next : ℕ

namespace Store

/-- No objects. -/
def empty : Store := ⟨fun _ => none, [], [], fun _ => False, 0⟩

/-- The store still holds the object with the number `k`. -/
def Alive (s : Store) (k : ℕ) : Prop := (s.objects k).isSome = true

instance (s : Store) (k : ℕ) : Decidable (s.Alive k) := inferInstanceAs (Decidable (_ = true))

/-- What the roots and the handles hold. -/
def held (s : Store) : List Value := s.roots ++ s.handles.map HandleRoot.slot

/-- Names of lost objects go. -/
def keep (s : Store) (id : ObjectId) : Option ObjectId := if s.Alive id.slot then some id else none

/-- Every object refers only to objects that the store holds. -/
def Closed (s : Store) : Prop :=
  ∀ k p, s.objects k = some p → ∀ id, .object id ∈ p.allFields → s.Alive id.slot

/-- `s'` is `s` without some objects that no root, no handle and no object of `s'` refers to. -/
structure Collects (s s' : Store) : Prop where
  roots : s'.roots = s.roots
  handles : s'.handles = s.handles
  rooted : ∀ k, .object (numbered k) ∈ s.held → s'.Alive k
  kept : ∀ k p', s'.objects k = some p' →
    ∃ p, s.objects k = some p ∧ p.Forwards s'.keep ∧ p' = p.forward s'.keep
  closed : s'.Closed
  interned : ∀ k, s'.interned k ↔ s.interned k ∧ s'.Alive k
  next : s.next ≤ s'.next

/-! ## Effects -/

/-- One more object. -/
def allocated (s : Store) (k : ℕ) (p : Payload) : Store :=
  { s with objects := fun j => if j = k then some p else s.objects j, next := k + 1 }

/-- Another payload of an object. -/
def updated (s : Store) (k : ℕ) (p : Payload) : Store :=
  { s with objects := fun j => if j = k then some p else s.objects j }

/-- One more canonical string. -/
def canonized (s : Store) (k : ℕ) : Store := { s with interned := fun j => j = k ∨ s.interned j }

/-- The bytes of the string a value names. -/
def bytes (s : Store) : Value → Option (List UInt8)
  | .object id =>
    match s.objects id.slot with
    | some (.str bytes) => some bytes
    | _ => none
  | _ => none

/-- Two keys of a map are the same: strings are compared by their bytes. -/
def sameKey (s : Store) (keyIsRef : Bool) (stored key : Value) : Bool :=
  if keyIsRef then s.bytes stored == s.bytes key else stored == key

/-- The first entry with the key. -/
def findEntry (s : Store) (m : MapPayload) (key : Value) : Option ℕ :=
  m.entries.findIdx? fun entry => s.sameKey m.keyIsRef entry.key key

/-- The entries after a store: a key that is there keeps its place, a new one comes last. -/
def setEntry (s : Store) (m : MapPayload) (key value : Value) : MapPayload :=
  match s.findEntry m key with
  | some entry => m.overwrite entry value
  | none => { m with entries := m.entries ++ [⟨key, value⟩] }

/-- The payload of the object that an operation allocates. -/
def newPayload (s : Store) : Operation → Option Payload
  | .allocatePair left right => some (.pair left right)
  | .allocateScalarArray length init => some (.scalarArray (List.replicate length init))
  | .allocateRefArray length init => some (.refArray (List.replicate length init))
  | .allocateString bytes => some (.str bytes)
  | .allocateStringConcat left right => do return .str ((← s.bytes left) ++ (← s.bytes right))
  | .allocateStringSubstring source lo hi => do
    return .str (((← s.bytes source).drop lo).take (hi - lo))
  | .allocateClosure layoutIndex functionIndex captures captureMap =>
    some (.closure layoutIndex functionIndex captures captureMap)
  | .allocateMap layoutIndex keyIsRef valueIsRef =>
    some (.map ⟨layoutIndex, keyIsRef, valueIsRef, [], []⟩)
  | .allocateWeak target => some (.weakRef target)
  | .allocateEphemeron key value valueIsRef => some (.ephemeron key value valueIsRef)
  | .allocateBuilder => some (.builder 0 [])
  | .builderToString (.object id) =>
    match s.objects id.slot with
    | some (.builder _ bytes) => some (.str bytes)
    | _ => none
  | .allocateRecord layoutIndex fields refMap => some (.record layoutIndex fields refMap)
  | .allocateVariant layoutIndex caseIndex fields caseRefMaps =>
    some (.variant layoutIndex caseIndex fields caseRefMaps)
  | _ => none

/-- A map takes a key: a string if its keys are references, and a scalar if not. -/
def accepts (s : Store) (m : MapPayload) (key : Value) : Bool :=
  if m.keyIsRef then (s.bytes key).isSome else key.isScalar

/-- What a store makes of the payload of its owner. -/
def newFields (s : Store) (op : Operation) (p : Payload) : Option Payload :=
  match op, p with
  | .setField _ field value, .pair left right => some (field.store left right value)
  | .arraySet _ index value, .scalarArray elements =>
    if index < elements.length then some (.scalarArray (elements.set index value)) else none
  | .refArraySet _ index value, .refArray elements =>
    if index < elements.length then some (.refArray (elements.set index value)) else none
  | .mapSet _ key value, .map m =>
    if s.accepts m key then some (.map (s.setEntry m key value)) else none
  | .recordSet _ index value, .record layoutIndex fields refMap =>
    if index < fields.length then some (.record layoutIndex (fields.set index value) refMap)
    else none
  | .ephemeronSetValue _ value, .ephemeron key _ valueIsRef =>
    if key.isNil then none else some (.ephemeron key value valueIsRef)
  | .builderAppend _ source, .builder capacity bytes => do
    return .builder capacity (bytes ++ (← s.bytes source))
  | .builderClear _, .builder capacity _ => some (.builder capacity [])
  | _, _ => none

/-- The handles after an operation on them. -/
def newHandles (s : Store) : Operation → Option (List HandleRoot)
  | .makeHandle key value => some (s.handles ++ [⟨key, value⟩])
  | .releaseHandle key => some (s.handles.eraseP (·.key = key))
  | .moveHandle source destination =>
    some (s.handles.map fun root =>
      if root.key = source then { root with key := destination } else root)
  | _ => none

end Store

/-- No operation stores into an object of the kind. -/
def ObjectKind.frozen : ObjectKind → Bool
  | str => true
  | closure => true
  | weakRef => true
  | variant => true
  | _ => false

/-- The object an operation stores into. -/
def Operation.owner : Operation → Option ObjectId
  | setField id _ _ => some id
  | arraySet id _ _ => some id
  | refArraySet id _ _ => some id
  | mapSet id _ _ => some id
  | recordSet id _ _ => some id
  | ephemeronSetValue id _ => some id
  | builderAppend id _ => some id
  | builderClear id => some id
  | _ => none

/-- The operation hands out an identifier. -/
def Operation.allocates : Operation → Bool
  | allocatePair _ _ => true
  | allocateScalarArray _ _ => true
  | allocateRefArray _ _ => true
  | allocateString _ => true
  | allocateStringConcat _ _ => true
  | allocateStringSubstring _ _ _ => true
  | internString _ => true
  | allocateClosure _ _ _ _ => true
  | allocateMap _ _ _ => true
  | allocateWeak _ => true
  | allocateEphemeron _ _ _ => true
  | allocateBuilder => true
  | builderToString _ => true
  | allocateRecord _ _ _ => true
  | allocateVariant _ _ _ _ => true
  | _ => false

/-- An action and its outcome: nothing if it threw, and else the identifier it returned, if it
returns one. -/
structure Event where
  action : Action
  outcome : Option (Option ObjectId)
deriving DecidableEq

namespace Store

/-- What an event does to a store. Each operation may come with a collection before and one after
its effect, and one that throws has no effect. A string is interned once: only the bytes that no
canonical string has get a new one. -/
inductive Step (s : Store) : Event → Store → Prop
  | setRoots {cells : List Value} (halive : ∀ k, .object (numbered k) ∈ cells → s.Alive k) :
    Step s ⟨.setRoots cells, some none⟩ { s with roots := cells }
  | allocates {op : Operation} {s₁ s' : Store} {k : ℕ} {p : Payload} (hbefore : s.Collects s₁)
    (hp : s₁.newPayload op = some p) (hfresh : s₁.next ≤ k)
    (hfields : ∀ id, .object id ∈ p.allFields → s₁.Alive id.slot)
    (hafter : (s₁.allocated k p).Collects s') (hresult : s'.Alive k) :
    Step s ⟨.call op, some (some (numbered k))⟩ s'
  | interned {source : Value} {s' : Store} {k : ℕ} {content : List UInt8} (hbefore : s.Collects s')
    (hsource : s'.bytes source = some content) (hk : s'.objects k = some (.str content))
    (hcanonical : s'.interned k) :
    Step s ⟨.call (.internString source), some (some (numbered k))⟩ s'
  | interns {source : Value} {s₁ s' : Store} {k : ℕ} {content : List UInt8} (hbefore : s.Collects s₁)
    (hsource : s₁.bytes source = some content)
    (hnew : ∀ j, s₁.interned j → s₁.objects j ≠ some (.str content)) (hfresh : s₁.next ≤ k)
    (hafter : ((s₁.allocated k (.str content)).canonized k).Collects s') (hresult : s'.Alive k) :
    Step s ⟨.call (.internString source), some (some (numbered k))⟩ s'
  | stores {op : Operation} {owner : ObjectId} {s₁ s' : Store} {p p' : Payload}
    (howner : op.owner = some owner) (hbefore : s.Collects s₁)
    (hp : s₁.objects owner.slot = some p) (hp' : s₁.newFields op p = some p')
    (hfields : ∀ id, .object id ∈ p'.allFields → s₁.Alive id.slot)
    (hafter : (s₁.updated owner.slot p').Collects s') :
    Step s ⟨.call op, some none⟩ s'
  | holds {op : Operation} {handles : List HandleRoot} (hhandles : s.newHandles op = some handles)
    (halive : ∀ root ∈ handles, ∀ k, root.slot = .object (numbered k) → s.Alive k) :
    Step s ⟨.call op, some none⟩ { s with handles := handles }
  | rests {op : Operation} {s' : Store} (hallocates : op.allocates = false)
    (howner : op.owner = none) (hhandles : s.newHandles op = none) (hcollects : s.Collects s') :
    Step s ⟨.call op, some none⟩ s'
  | throws {op : Operation} {s' : Store} (hcollects : s.Collects s') : Step s ⟨.call op, none⟩ s'

/-- The stores a sequence of events may lead to. -/
inductive Runs : Store → List Event → Store → Prop
  | nil (s : Store) : Runs s [] s
  | cons {s s₁ s' : Store} {event : Event} {events : List Event} (hstep : s.Step event s₁)
    (hruns : Runs s₁ events s') : Runs s (event :: events) s'

end Store

end LanguageRuntime.Gc
