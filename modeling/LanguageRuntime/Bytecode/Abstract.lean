import LanguageRuntime.Bytecode.Module
import Mathlib.Data.Finset.Lattice.Fold

/-!
# Abstract values and states

The abstract domain of the verifier (`src/bytecode.cpp`): what it knows of a stack slot, a
local or a field, and of a whole frame at a pc. A `std::set` of allocation sites is a
`Finset`; a `std::map` keyed by allocation site is a table with one entry for each pc.
-/

namespace LanguageRuntime.Bytecode

inductive AbstractKind where
  | int64
  | bool
  | object
  | array
  | refArray
  | str
  | function
  | map
  | weak
  | maybeReference
  | record
  | variant
  | ephemeron
  | builder
  | nil
  | poison
deriving DecidableEq, Repr

def AbstractKind.name : AbstractKind → String
  | int64 => "Int64"
  | bool => "Bool"
  | object => "Object"
  | array => "Array"
  | refArray => "RefArray"
  | str => "Str"
  | function => "Function"
  | map => "Map"
  | weak => "Weak"
  | maybeReference => "MaybeReference"
  | record => "Record"
  | variant => "Variant"
  | ephemeron => "Ephemeron"
  | builder => "Builder"
  | nil => "Nil"
  | poison => "Poison"

/-- `PairFields`, over the type of its fields. -/
structure Fields (α : Type) where
  left : α
  right : α
deriving DecidableEq

structure AbstractValue where
  kind : AbstractKind
  objectSites : Finset ℕ := ∅
  refArraySites : Finset ℕ := ∅
  includesOpaqueObject : Bool := false
  includesNil : Bool := false
  signatureFields : Option (Fields AbstractValue) := none
  signatureArrayElement : Option AbstractValue := none
  signatureFunction : Option SignatureValue := none
  signatureMap : Option SignatureValue := none
  referenceTarget : Option AbstractValue := none
  signatureNamedType : Option ℕ := none
  signatureRecordLayout : Option ℕ := none
  signatureVariantLayout : Option ℕ := none
  sourceLocal : Option ℕ := none
  nilTestLocal : Option ℕ := none

abbrev PairFields := Fields AbstractValue

/-! ## Equality -/

mutual

/-- `operator==` on abstract values. -/
def abstractValuesEqual : AbstractValue → AbstractValue → Bool
  | ⟨kind, objectSites, refArraySites, opaqueObject, includesNil, fields, element, function, map,
      target, named, record, variant, sourceLocal, nilTestLocal⟩, rhs =>
    kind == rhs.kind && objectSites == rhs.objectSites && refArraySites == rhs.refArraySites &&
      opaqueObject == rhs.includesOpaqueObject && includesNil == rhs.includesNil &&
      fieldsEqual fields rhs.signatureFields &&
      abstractValuePtrEqual element rhs.signatureArrayElement &&
      function == rhs.signatureFunction && map == rhs.signatureMap &&
      abstractValuePtrEqual target rhs.referenceTarget && named == rhs.signatureNamedType &&
      record == rhs.signatureRecordLayout && variant == rhs.signatureVariantLayout &&
      sourceLocal == rhs.sourceLocal && nilTestLocal == rhs.nilTestLocal

def fieldsEqual : Option (Fields AbstractValue) → Option (Fields AbstractValue) → Bool
  | some ⟨left, right⟩, some rhs =>
    abstractValuesEqual left rhs.left && abstractValuesEqual right rhs.right
  | none, none => true
  | _, _ => false

def abstractValuePtrEqual : Option AbstractValue → Option AbstractValue → Bool
  | some lhs, some rhs => abstractValuesEqual lhs rhs
  | none, none => true
  | _, _ => false

end

mutual

theorem abstractValuesEqual_iff : ∀ {lhs rhs : AbstractValue},
    abstractValuesEqual lhs rhs = true ↔ lhs = rhs
  | ⟨_, _, _, _, _, fields, element, _, _, target, _, _, _, _, _⟩,
    ⟨_, _, _, _, _, fields', element', _, _, target', _, _, _, _, _⟩ => by
    have hfields : fieldsEqual fields fields' = true ↔ fields = fields' := fieldsEqual_iff
    have helement : abstractValuePtrEqual element element' = true ↔ element = element' :=
      abstractValuePtrEqual_iff
    have htarget : abstractValuePtrEqual target target' = true ↔ target = target' :=
      abstractValuePtrEqual_iff
    simp only [abstractValuesEqual, Bool.and_eq_true, beq_iff_eq, AbstractValue.mk.injEq, hfields,
      helement, htarget]
    tauto

theorem fieldsEqual_iff : ∀ {lhs rhs : Option (Fields AbstractValue)},
    fieldsEqual lhs rhs = true ↔ lhs = rhs
  | some ⟨left, right⟩, some ⟨left', right'⟩ => by
    have hleft : abstractValuesEqual left left' = true ↔ left = left' := abstractValuesEqual_iff
    have hright : abstractValuesEqual right right' = true ↔ right = right' :=
      abstractValuesEqual_iff
    simp only [fieldsEqual, Bool.and_eq_true, Option.some.injEq, Fields.mk.injEq, hleft, hright]
  | none, none => by simp [fieldsEqual]
  | some ⟨_, _⟩, none => by simp [fieldsEqual]
  | none, some _ => by simp [fieldsEqual]

theorem abstractValuePtrEqual_iff : ∀ {lhs rhs : Option AbstractValue},
    abstractValuePtrEqual lhs rhs = true ↔ lhs = rhs
  | some lhs, some rhs => by
    have hvalue : abstractValuesEqual lhs rhs = true ↔ lhs = rhs := abstractValuesEqual_iff
    simp only [abstractValuePtrEqual, Option.some.injEq, hvalue]
  | none, none => by simp [abstractValuePtrEqual]
  | some _, none => by simp [abstractValuePtrEqual]
  | none, some _ => by simp [abstractValuePtrEqual]

end

instance : DecidableEq AbstractValue := fun lhs rhs =>
  decidable_of_iff (abstractValuesEqual lhs rhs = true) abstractValuesEqual_iff

/-! ## Constructors -/

def valueWithKind (kind : AbstractKind) : AbstractValue := { kind := kind }

def int64Value : AbstractValue := valueWithKind .int64
def boolValue : AbstractValue := valueWithKind .bool
def arrayValue : AbstractValue := valueWithKind .array
def strValue : AbstractValue := valueWithKind .str
def builderValue : AbstractValue := valueWithKind .builder
def poisonValue : AbstractValue := valueWithKind .poison

def mapValue (signature : SignatureValue) : AbstractValue :=
  { kind := .map, signatureMap := some signature }

def ephemeronValue (signature : SignatureValue) : AbstractValue :=
  { kind := .ephemeron, signatureMap := some signature }

def refArrayValue (site : ℕ) : AbstractValue := { kind := .refArray, refArraySites := {site} }

def nilObjectValue : AbstractValue := { kind := .object, includesNil := true }

def objectValue (site : ℕ) : AbstractValue := { kind := .object, objectSites := {site} }

def opaqueObjectValue : AbstractValue := { kind := .object, includesOpaqueObject := true }

def namedSignatureObjectValue (index : ℕ) : AbstractValue :=
  { kind := .object, includesNil := true, signatureNamedType := some index }

def recordValue (layoutIndex : ℕ) (includesNil : Bool) : AbstractValue :=
  { kind := .record, includesNil := includesNil, signatureRecordLayout := some layoutIndex }

def variantValue (layoutIndex : ℕ) (includesNil : Bool) : AbstractValue :=
  { kind := .variant, includesNil := includesNil, signatureVariantLayout := some layoutIndex }

def withoutProvenance (value : AbstractValue) : AbstractValue :=
  { value with sourceLocal := none, nilTestLocal := none }

/-- A weak reference. Clearing is represented by the `MaybeReference` a read produces, never by
the target. -/
def weakValue (target : AbstractValue) : AbstractValue :=
  { kind := .weak, referenceTarget := some (withoutProvenance { target with includesNil := false }) }

def maybeReferenceValue (target : AbstractValue) : AbstractValue :=
  { kind := .maybeReference, referenceTarget := some (withoutProvenance target) }

def abstractKind : ValueKind → AbstractKind
  | .int64 => .int64
  | .bool => .bool
  | .object => .object
  | .array => .array
  | .nil => .nil
  | .str => .str
  | .function => .function
  | .map => .map
  | .weak => .weak
  | .record => .record
  | .variant => .variant
  | .ephemeron => .ephemeron
  | .builder => .builder

/-- `value_from_signature` of a coarse kind. -/
def valueFromKind (kind : ValueKind) : AbstractValue :=
  if kind = .object then opaqueObjectValue else valueWithKind (abstractKind kind)

/-- The element fact of a reference array: its elements are never nil. -/
def nonnilElement (element : AbstractValue) : AbstractValue :=
  if element.kind = .object ∨ element.kind = .record ∨ element.kind = .variant then
    { element with includesNil := false }
  else element

/-- What the verifier knows of a value of a static type. -/
def valueFromSignature (signature : SignatureValue) : AbstractValue :=
  match signature with
  | ⟨kind, left, right, element, key, value, weakTarget, parameters, ret, named, record, variant⟩ =>
    let signature : SignatureValue :=
      ⟨kind, left, right, element, key, value, weakTarget, parameters, ret, named, record, variant⟩
    if signature.isRecordLayoutReference then recordValue (record.getD 0) true
    else if signature.isVariantLayoutReference then variantValue (variant.getD 0) true
    else if signature.hasWeakTarget then
      match weakTarget with
      | some target => weakValue (valueFromSignature target)
      | none => poisonValue
    else if signature.hasFunctionSignature then
      { kind := .function, signatureFunction := some signature }
    else if signature.hasMapEntries then mapValue signature
    else if signature.hasEphemeronEntries then ephemeronValue signature
    else if signature.isNamedTypeReference then namedSignatureObjectValue (named.getD 0)
    else if signature.hasPairFields then
      match left, right with
      | some left, some right =>
        { kind := .object
          signatureFields := some ⟨valueFromSignature left, valueFromSignature right⟩ }
      | _, _ => poisonValue
    else if signature.hasArrayElement then
      match element with
      | some element =>
        if signatureValueIsReference element then
          { kind := .refArray
            signatureArrayElement := some (nonnilElement (valueFromSignature element)) }
        else arrayValue
      | none => poisonValue
    else valueFromKind kind
termination_by structural signature

def isReferenceKind : AbstractKind → Bool
  | .object | .array | .refArray | .str | .function | .map | .weak | .maybeReference | .record
  | .variant | .ephemeron | .builder => true
  | .int64 | .bool | .nil | .poison => false

def isPoison (value : AbstractValue) : Bool := value.kind == .poison

def isCanonicalNilObject (value : AbstractValue) : Bool :=
  value.kind == .object && value.includesNil && decide (value.objectSites = ∅) &&
    decide (value.refArraySites = ∅) && !value.includesOpaqueObject &&
    value.signatureFields.isNone && value.signatureArrayElement.isNone &&
    value.signatureFunction.isNone && value.signatureMap.isNone && value.referenceTarget.isNone &&
    value.signatureNamedType.isNone && value.signatureRecordLayout.isNone &&
    value.signatureVariantLayout.isNone

/-! ## Joins -/

mutual

/-- How deep the pointers of a value nest. -/
def AbstractValue.depth : AbstractValue → ℕ
  | ⟨_, _, _, _, _, fields, element, _, _, target, _, _, _, _, _⟩ =>
    fieldsDepth fields + pointerDepth element + pointerDepth target + 1

def fieldsDepth : Option (Fields AbstractValue) → ℕ
  | some ⟨left, right⟩ => left.depth + right.depth
  | none => 0

def pointerDepth : Option AbstractValue → ℕ
  | some value => value.depth
  | none => 0

end

namespace AbstractValue

theorem depth_eq (value : AbstractValue) :
    value.depth = fieldsDepth value.signatureFields + pointerDepth value.signatureArrayElement +
      pointerDepth value.referenceTarget + 1 := by
  cases value
  rw [depth]

theorem depth_signatureFields {value : AbstractValue} {fields : PairFields}
    (h : value.signatureFields = some fields) :
    fields.left.depth < value.depth ∧ fields.right.depth < value.depth := by
  have hdepth : fieldsDepth (some fields) = fields.left.depth + fields.right.depth := by
    rw [fieldsDepth]
  rw [value.depth_eq, h, hdepth]
  omega

theorem depth_signatureArrayElement {value element : AbstractValue}
    (h : value.signatureArrayElement = some element) : element.depth < value.depth := by
  rw [value.depth_eq, h, pointerDepth]
  omega

theorem depth_referenceTarget {value target : AbstractValue}
    (h : value.referenceTarget = some target) : target.depth < value.depth := by
  rw [value.depth_eq, h, pointerDepth.eq_1]
  omega

end AbstractValue

/-- The target of a maybe-reference that `target` may be joined into: the test of
`join_maybe_with_target`. -/
def maybeTarget (maybe target : AbstractValue) : Option AbstractValue :=
  if maybe.kind = .maybeReference then
    maybe.referenceTarget.filter (·.kind = target.kind)
  else none

theorem maybeTarget_eq {maybe target inner : AbstractValue}
    (h : maybeTarget maybe target = some inner) :
    maybe.kind = .maybeReference ∧ maybe.referenceTarget = some inner ∧
      inner.kind = target.kind := by
  unfold maybeTarget at h
  split at h
  case isTrue hkind =>
    obtain ⟨htarget, hinner⟩ := Option.filter_eq_some_iff.mp h
    exact ⟨hkind, htarget, by simpa using hinner⟩
  case isFalse => exact nomatch h

/-- The end of `join_maybe_with_target`. -/
def joinedMaybe (joinedTarget : AbstractValue) : AbstractValue :=
  if isPoison joinedTarget then poisonValue else maybeReferenceValue joinedTarget

/-- An origin both sides agree on. -/
def joinOrigin (lhs rhs : Option ℕ) : Option ℕ := if lhs = rhs then lhs else none

def joinNominalWithNil (nominal nil : AbstractValue) : AbstractValue :=
  { nominal with
    includesNil := true
    sourceLocal := joinOrigin nominal.sourceLocal nil.sourceLocal
    nilTestLocal := joinOrigin nominal.nilTestLocal nil.nilTestLocal }

/-- The named type of a joined object: the one that is known, and none when two are. -/
def joinNamedType (lhs rhs : Option ℕ) : Option ℕ :=
  if lhs = rhs then lhs
  else
    match lhs, rhs with
    | some named, none => some named
    | none, some named => some named
    | _, _ => none

set_option linter.unusedVariables false in
/-- What the verifier knows of a value that is one of two. -/
def joinValues (lhs rhs : AbstractValue) : AbstractValue :=
  match hlhs : maybeTarget lhs rhs with
  | some target => joinedMaybe (joinValues target rhs)
  | none =>
    match hrhs : maybeTarget rhs lhs with
    | some target => joinedMaybe (joinValues target lhs)
    | none =>
      if lhs.kind = .record ∧ isCanonicalNilObject rhs then joinNominalWithNil lhs rhs
      else if rhs.kind = .record ∧ isCanonicalNilObject lhs then joinNominalWithNil rhs lhs
      else if lhs.kind = .variant ∧ isCanonicalNilObject rhs then joinNominalWithNil lhs rhs
      else if rhs.kind = .variant ∧ isCanonicalNilObject lhs then joinNominalWithNil rhs lhs
      else if lhs.kind ≠ rhs.kind ∨ isPoison lhs ∨ isPoison rhs then poisonValue
      else
        let joined : AbstractValue :=
          { lhs with
            sourceLocal := joinOrigin lhs.sourceLocal rhs.sourceLocal
            nilTestLocal := joinOrigin lhs.nilTestLocal rhs.nilTestLocal }
        match lhs.kind with
        | .object =>
          { joined with
            objectSites := lhs.objectSites ∪ rhs.objectSites
            includesOpaqueObject := lhs.includesOpaqueObject || rhs.includesOpaqueObject
            includesNil := lhs.includesNil || rhs.includesNil
            signatureNamedType := joinNamedType lhs.signatureNamedType rhs.signatureNamedType
            signatureFields :=
              match hl : lhs.signatureFields, hr : rhs.signatureFields with
              | some left, some right =>
                some ⟨joinValues left.left right.left, joinValues left.right right.right⟩
              | some left, none => some left
              | none, right => right }
        | .refArray =>
          { joined with
            refArraySites := lhs.refArraySites ∪ rhs.refArraySites
            signatureArrayElement :=
              match hl : lhs.signatureArrayElement, hr : rhs.signatureArrayElement with
              | some left, some right => some (joinValues left right)
              | some left, none => some left
              | none, right => right }
        | .function =>
          if lhs.signatureFunction.isSome ∧ lhs.signatureFunction = rhs.signatureFunction then
            joined
          else poisonValue
        | .map | .ephemeron =>
          if lhs.signatureMap.isSome ∧ lhs.signatureMap = rhs.signatureMap then joined
          else poisonValue
        | .record =>
          if lhs.signatureRecordLayout.isSome ∧
              lhs.signatureRecordLayout = rhs.signatureRecordLayout then
            { joined with includesNil := lhs.includesNil || rhs.includesNil }
          else poisonValue
        | .variant =>
          if lhs.signatureVariantLayout.isSome ∧
              lhs.signatureVariantLayout = rhs.signatureVariantLayout then
            { joined with includesNil := lhs.includesNil || rhs.includesNil }
          else poisonValue
        | .weak | .maybeReference =>
          match hl : lhs.referenceTarget, hr : rhs.referenceTarget with
          | some left, some right =>
            if isPoison (joinValues left right) then poisonValue
            else { joined with referenceTarget := some (joinValues left right) }
          | _, _ => poisonValue
        | _ => joined
termination_by lhs.depth + rhs.depth
decreasing_by
  all_goals first
    | (have hdepth := AbstractValue.depth_referenceTarget (maybeTarget_eq hlhs).2.1; omega)
    | (have hdepth := AbstractValue.depth_referenceTarget (maybeTarget_eq hrhs).2.1; omega)
    | (have hdepth := AbstractValue.depth_signatureFields hl
       have hdepth' := AbstractValue.depth_signatureFields hr
       omega)
    | (have hdepth := AbstractValue.depth_signatureArrayElement hl
       have hdepth' := AbstractValue.depth_signatureArrayElement hr
       omega)
    | (have hdepth := AbstractValue.depth_referenceTarget hl
       have hdepth' := AbstractValue.depth_referenceTarget hr
       omega)

/-- Joins into a value, and whether it changed. -/
def joinValueInto (destination incoming : AbstractValue) : AbstractValue × Bool :=
  let joined := joinValues destination incoming
  if joined = destination then (destination, false) else (joined, true)

def joinRefArrayElementValues (lhs rhs : AbstractValue) : AbstractValue :=
  let joined := joinValues lhs rhs
  if !isPoison joined then joined
  else if lhs.kind = .function ∨ rhs.kind = .function then joined
  else if isReferenceKind lhs.kind && isReferenceKind rhs.kind then opaqueObjectValue
  else joined

def joinRefArrayElementInto (destination incoming : AbstractValue) : AbstractValue × Bool :=
  let joined := joinRefArrayElementValues destination incoming
  if joined = destination then (destination, false) else (joined, true)

/-! ## States -/

/-- What the verifier knows of a frame before the instruction at a pc. The top of the stack is
the head of the list. -/
structure AbstractState where
  stack : List AbstractValue
  locals : List (Option AbstractValue)
  /-- Whether a local holds a reference, tracked apart from its definite initialization. -/
  localReferenceKinds : List (Option Bool)
  fieldsBySite : List (Option PairFields)
  refArrayElementsBySite : List (Option AbstractValue)
deriving DecidableEq

/-- Joins a table into another entry by entry, and whether one changed. -/
def joinEntries {α : Type} (join : α → α → α × Bool) : List α → List α → List α × Bool
  | destination :: destinations, incoming :: incomings =>
    let (joined, changed) := join destination incoming
    let (joinedRest, changedRest) := joinEntries join destinations incomings
    (joined :: joinedRest, changed || changedRest)
  | destinations, _ => (destinations, false)

/-- A local is initialized after a merge when it is on both edges. -/
def joinLocalInto : Option AbstractValue → Option AbstractValue → Option AbstractValue × Bool
  | some destination, some incoming =>
    let (joined, changed) := joinValueInto destination incoming
    (some joined, changed)
  | some _, none => (none, true)
  | none, _ => (none, false)

/-- Two edges give a local different root categories. -/
def referenceKindsDisagree (destination incoming : List (Option Bool)) : Bool :=
  (destination.zip incoming).any fun (destinationKind, incomingKind) =>
    match destinationKind, incomingKind with
    | some destinationKind, some incomingKind => destinationKind != incomingKind
    | _, _ => false

def joinReferenceKindInto : Option Bool → Option Bool → Option Bool × Bool
  | none, some incomingKind => (some incomingKind, true)
  | destinationKind, _ => (destinationKind, false)

def joinFieldsInto : Option PairFields → Option PairFields → Option PairFields × Bool
  | some destination, some incoming =>
    let (left, leftChanged) := joinValueInto destination.left incoming.left
    let (right, rightChanged) := joinValueInto destination.right incoming.right
    (some ⟨left, right⟩, leftChanged || rightChanged)
  | none, some incoming => (some incoming, true)
  | destination, none => (destination, false)

def joinElementInto : Option AbstractValue → Option AbstractValue → Option AbstractValue × Bool
  | some destination, some incoming =>
    let (joined, changed) := joinRefArrayElementInto destination incoming
    (some joined, changed)
  | none, some incoming => (some incoming, true)
  | destination, none => (destination, false)

/-- Joins a state into another, and whether it changed; `none` is `JoinOutcome::Invalid`. -/
def joinStateInto (destination incoming : AbstractState) : Option (AbstractState × Bool) :=
  if destination.stack.length ≠ incoming.stack.length ∨
      destination.locals.length ≠ incoming.locals.length ∨
      destination.localReferenceKinds.length ≠ incoming.localReferenceKinds.length then none
  else if referenceKindsDisagree destination.localReferenceKinds incoming.localReferenceKinds then
    none
  else
    let (stack, stackChanged) := joinEntries joinValueInto destination.stack incoming.stack
    let (locals, localsChanged) := joinEntries joinLocalInto destination.locals incoming.locals
    let (kinds, kindsChanged) := joinEntries joinReferenceKindInto
      destination.localReferenceKinds incoming.localReferenceKinds
    let (fields, fieldsChanged) := joinEntries joinFieldsInto
      destination.fieldsBySite incoming.fieldsBySite
    let (elements, elementsChanged) := joinEntries joinElementInto
      destination.refArrayElementsBySite incoming.refArrayElementsBySite
    some (⟨stack, locals, kinds, fields, elements⟩,
      stackChanged || localsChanged || kindsChanged || fieldsChanged || elementsChanged)

/-- `stack_map_from_state`: none when a stack slot is poison. -/
def stackMapFromState (state : AbstractState) (tailCallBoundary : Bool) : Option StackMap :=
  if state.stack.any isPoison then none
  else some {
    objectSlots := state.stack.reverse.map fun value => isReferenceKind value.kind
    localObjectSlots := state.localReferenceKinds.map fun kind =>
      !tailCallBoundary && kind.getD false }

/-- `stack_map_matches`: a supplied map without local bits is the hand-written format. -/
def stackMapMatches (map : StackMap) (state : AbstractState) (tailCallBoundary : Bool) : Bool :=
  match stackMapFromState state tailCallBoundary with
  | none => false
  | some generated =>
    map.objectSlots == generated.objectSlots &&
      (map.localObjectSlots.isEmpty || map.localObjectSlots == generated.localObjectSlots)

end LanguageRuntime.Bytecode
