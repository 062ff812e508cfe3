import LanguageRuntime.Bytecode.DescentTheorems

/-!
# What abstract values describe

The meaning of an abstract value: the run-time values it describes, in a world that says what
the values of a run are. An object is one of the things its fact lists: nil, an object of one of
its sites, an instance of its named type, a pair with its fields, or any reference at all.
-/

namespace LanguageRuntime.Bytecode

/-- What the values of a run are, over the type of the values. -/
structure World (V : Type) where
  isKind : AbstractKind → V → Prop
  isNil : V → Prop
  /-- A reference that is not nil. -/
  isReference : V → Prop
  objectSite : ℕ → V → Prop
  arraySite : ℕ → V → Prop
  instanceOf : ℕ → V → Prop
  hasFields : V → V → V → Prop
  hasElement : V → V → Prop
  hasTarget : V → V → Prop
  hasType : SignatureValue → V → Prop
  hasLayout : ℕ → V → Prop
  isLocal : ℕ → V → Prop
  /-- A boolean that says whether a local is nil. -/
  isNilTest : ℕ → V → Prop
  reference_of_site : ∀ site v, objectSite site v → isReference v
  reference_of_instance : ∀ named v, instanceOf named v → isReference v
  reference_of_fields : ∀ v left right, hasFields v left right → isReference v
  reference_of_kind : ∀ kind v, isReferenceKind kind = true → isKind kind v → isReference v
  kind_of_arraySite : ∀ site v, arraySite site v → isKind .refArray v

section Describes

variable {V : Type}

/-- The origins of a fact: the local it was loaded from, and the local it is a nil test of. -/
def HasOrigins (W : World V) (fact : AbstractValue) (v : V) : Prop :=
  (∀ source, fact.sourceLocal = some source → W.isLocal source v) ∧
    ∀ tested, fact.nilTestLocal = some tested → W.isNilTest tested v

mutual

/-- What a fact says of a value, its origins apart. -/
def HasShape (W : World V) : AbstractValue → V → Prop
  | ⟨kind, objectSites, refArraySites, opaqueObject, includesNil, fields, element, function, map,
      target, named, record, variant, _, _⟩, v =>
    match kind with
    | .poison => True
    | .object =>
      (includesNil = true ∧ W.isNil v) ∨ (∃ site ∈ objectSites, W.objectSite site v) ∨
        (opaqueObject = true ∧ W.isReference v) ∨
        (∃ type, named = some type ∧ W.instanceOf type v) ∨ FieldsDescribe W fields v
    | .refArray => (∃ site ∈ refArraySites, W.arraySite site v) ∨ ElementDescribes W element v
    | .function => W.isKind .function v ∧ ∀ type, function = some type → W.hasType type v
    | .map => W.isKind .map v ∧ ∀ type, map = some type → W.hasType type v
    | .ephemeron => W.isKind .ephemeron v ∧ ∀ type, map = some type → W.hasType type v
    | .record =>
      (includesNil = true ∧ W.isNil v) ∨
        (W.isKind .record v ∧ ∀ layout, record = some layout → W.hasLayout layout v)
    | .variant =>
      (includesNil = true ∧ W.isNil v) ∨
        (W.isKind .variant v ∧ ∀ layout, variant = some layout → W.hasLayout layout v)
    | .weak => W.isKind .weak v ∧ TargetDescribes W target v
    | .maybeReference => W.isNil v ∨ PointerDescribes W target v
    | .int64 => W.isKind .int64 v
    | .bool => W.isKind .bool v
    | .array => W.isKind .array v
    | .str => W.isKind .str v
    | .builder => W.isKind .builder v
    | .nil => W.isKind .nil v

/-- A pair whose fields are described. -/
def FieldsDescribe (W : World V) : Option (Fields AbstractValue) → V → Prop
  | some ⟨left, right⟩, v =>
    ∃ a b, W.hasFields v a b ∧ (HasShape W left a ∧ HasOrigins W left a) ∧
      HasShape W right b ∧ HasOrigins W right b
  | none, _ => False

/-- A reference array whose elements are described. -/
def ElementDescribes (W : World V) : Option AbstractValue → V → Prop
  | some element, v =>
    W.isKind .refArray v ∧ ∀ a, W.hasElement v a → HasShape W element a ∧ HasOrigins W element a
  | none, _ => False

/-- A weak reference whose target, as long as it lives, is described. -/
def TargetDescribes (W : World V) : Option AbstractValue → V → Prop
  | some target, v => ∀ a, W.hasTarget v a → HasShape W target a ∧ HasOrigins W target a
  | none, _ => True

def PointerDescribes (W : World V) : Option AbstractValue → V → Prop
  | some target, v => HasShape W target v ∧ HasOrigins W target v
  | none, _ => False

end

/-- A fact describes a value. -/
def Describes (W : World V) (fact : AbstractValue) (v : V) : Prop :=
  HasShape W fact v ∧ HasOrigins W fact v

end Describes

/-! ## Where a join describes less -/

mutual

/-- A fact that describes nothing. -/
def isVoid : AbstractValue → Bool
  | ⟨kind, objectSites, refArraySites, opaqueObject, includesNil, fields, element, _, _, _, named,
      _, _, _, _⟩ =>
    match kind with
    | .object =>
      !includesNil && decide (objectSites = ∅) && !opaqueObject && named.isNone &&
        fieldsVoid fields
    | .refArray => decide (refArraySites = ∅) && element.isNone
    | _ => false

def fieldsVoid : Option (Fields AbstractValue) → Bool
  | some ⟨left, right⟩ => isVoid left || isVoid right
  | none => true

end

mutual

/-- A join of the facts describes all that the left one describes: no named type is dropped for
another one, unless the fact describes any reference anyway. -/
def covered : AbstractValue → AbstractValue → Bool
  | ⟨kind, _, _, opaqueObject, _, fields, element, _, _, target, named, _, _, _, _⟩, rhs =>
    if kind ≠ rhs.kind then true
    else
      match kind with
      | .object =>
        opaqueObject || rhs.includesOpaqueObject ||
          ((named.isNone || rhs.signatureNamedType.isNone || named == rhs.signatureNamedType) &&
            fieldsCovered fields rhs.signatureFields)
      | .refArray => pointerCovered element rhs.signatureArrayElement
      | .weak => pointerCovered target rhs.referenceTarget
      | _ => true

def fieldsCovered : Option (Fields AbstractValue) → Option (Fields AbstractValue) → Bool
  | some ⟨left, right⟩, some rhs =>
    isVoid left || isVoid right || (covered left rhs.left && covered right rhs.right)
  | _, _ => true

def pointerCovered : Option AbstractValue → Option AbstractValue → Bool
  | some lhs, some rhs => covered lhs rhs
  | _, _ => true

end

/-! ## Where a join with itself loses a fact -/

mutual

/-- A fact with the details a join needs: joined with itself it stays what it is. -/
def isFull : AbstractValue → Bool
  | ⟨kind, _, _, _, _, fields, element, function, map, target, _, record, variant, _, _⟩ =>
    match kind with
    | .object => fieldsFull fields
    | .refArray => elementFull element
    | .function => function.isSome
    | .map | .ephemeron => map.isSome
    | .record => record.isSome
    | .variant => variant.isSome
    | .weak => targetFull target
    | _ => true

def fieldsFull : Option (Fields AbstractValue) → Bool
  | some ⟨left, right⟩ => isFull left && isFull right
  | none => true

def elementFull : Option AbstractValue → Bool
  | some element => isFull element
  | none => true

def targetFull : Option AbstractValue → Bool
  | some target => isFull target
  | none => false

end

mutual

/-- A fact whose join with itself, if it has one, is the fact. -/
def isSettled : AbstractValue → Bool
  | ⟨kind, _, _, _, _, fields, element, _, _, target, _, _, _, _, _⟩ =>
    match kind with
    | .object => fieldsFull fields
    | .refArray => elementFull element
    | .weak => targetSettled target
    | _ => true

def targetSettled : Option AbstractValue → Bool
  | some target => isSettled target
  | none => true

end

/-- The join of two facts is what it should be. -/
def joinsWell (lhs rhs : AbstractValue) : Bool :=
  covered (withoutMaybe lhs) (withoutMaybe rhs) && covered (withoutMaybe rhs) (withoutMaybe lhs) &&
    isSettled (withoutMaybe lhs) && isSettled (withoutMaybe rhs)

end LanguageRuntime.Bytecode
