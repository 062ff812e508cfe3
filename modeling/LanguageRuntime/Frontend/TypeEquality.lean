import LanguageRuntime.Frontend.Generics
import LanguageRuntime.Frontend.Traversal

/-!
# Equality of types and the lookup of instances

`operator==` of `TypeSpec` in `src/frontend/parser.cpp`, and the search of the checker's
instances by declaration and key. `ConcreteType` is what a concrete type is once the fields
that do not count are gone: a tree whose leaves are the basic types and the indices of the
nominal ones.
-/

namespace LanguageRuntime.Frontend

/-- `has_pair_fields`. -/
def TypeSpec.hasPairFields (type : TypeSpec) : Bool :=
  type.kind = .pair && type.left.isSome && type.right.isSome

mutual

/-- `operator==`. Two shared pointers that are compared because one of four is null are
compared as null or not: a map or an ephemeron has both its entries or neither. -/
def TypeSpec.equals : TypeSpec → TypeSpec → Bool
  | { kind, left, right, element, key, value, weakTarget, functionParameters, functionReturn,
      name, namedTypeIndex, recordLayoutIndex, variantLayoutIndex, typeParameterIndex,
      genericArguments, .. }, rhs =>
    if kind ≠ rhs.kind then false
    else
      match kind with
      | .named =>
        if namedTypeIndex.isSome && rhs.namedTypeIndex.isSome then
          namedTypeIndex = rhs.namedTypeIndex
        else name = rhs.name && equalsList genericArguments rhs.genericArguments
      | .typeParameter => typeParameterIndex = rhs.typeParameterIndex && name = rhs.name
      | .record =>
        if recordLayoutIndex.isSome && rhs.recordLayoutIndex.isSome then
          recordLayoutIndex = rhs.recordLayoutIndex
        else name = rhs.name
      | .variant =>
        if variantLayoutIndex.isSome && rhs.variantLayoutIndex.isSome then
          variantLayoutIndex = rhs.variantLayoutIndex
        else name = rhs.name
      | .array => equalsOption element rhs.element
      | .function =>
        functionReturn.isSome && rhs.functionReturn.isSome &&
          equalsOption functionReturn rhs.functionReturn &&
          equalsList functionParameters rhs.functionParameters
      | .map | .ephemeron => equalsOption key rhs.key && equalsOption value rhs.value
      | .weak => equalsOption weakTarget rhs.weakTarget
      | .pair =>
        if left.isSome && right.isSome then
          rhs.hasPairFields && equalsOption left rhs.left && equalsOption right rhs.right
        else !rhs.hasPairFields
      | .int64 | .bool | .str | .builder | .nil | .invalid => true

/-- Two pointers to types: both null, or the types they point to are equal. -/
def equalsOption : Option TypeSpec → Option TypeSpec → Bool
  | none, none => true
  | some lhs, some rhs => lhs.equals rhs
  | _, _ => false

/-- Two vectors of types: of one size, and equal at every position. -/
def equalsList : List TypeSpec → List TypeSpec → Bool
  | [], [] => true
  | lhs :: lefts, rhs :: rights => lhs.equals rhs && equalsList lefts rights
  | _, _ => false

end

/-! ## Instances -/

/-- The fields of `GenericInstantiation` and of `GenericNominalInstantiation` that the search
for an instance reads, and the arguments the instance was made for. -/
structure GenericInstantiation where
  key : String
  genericIndex : ℕ
  arguments : List TypeSpec

/-- The search at the start of `request_generic_instantiation` and of
`request_generic_nominal_instantiation`. -/
def findInstantiation (instantiations : List GenericInstantiation) (genericIndex : ℕ)
    (arguments : List TypeSpec) : Except String (Option GenericInstantiation) := do
  let key ← canonicalTypeArgumentTupleKey arguments
  pure (instantiations.find? fun instantiation =>
    instantiation.genericIndex = genericIndex && instantiation.key = key)

/-! ## Resolved types -/

/-- The name the checker's tables give to each index of a nominal type. `resolve_type` takes
the name of a nominal type and its index from one symbol, or from one generic declaration and
its instance. -/
structure NominalNames where
  named : ℕ → String
  record : ℕ → String
  variant : ℕ → String

mutual

/-- A concrete type whose nominal types have the names of the tables. -/
def TypeSpec.Resolved (names : NominalNames) : TypeSpec → Prop
  | { kind, left, right, element, key, value, weakTarget, functionParameters, functionReturn,
      name, namedTypeIndex, recordLayoutIndex, variantLayoutIndex, .. } =>
    match kind with
    | .int64 | .bool | .str | .builder => True
    | .pair => ResolvedOption names left ∧ ResolvedOption names right
    | .array => element.isSome ∧ ResolvedOption names element
    | .function =>
      functionReturn.isSome ∧ ResolvedList names functionParameters ∧
        ResolvedOption names functionReturn
    | .map | .ephemeron =>
      key.isSome ∧ value.isSome ∧ ResolvedOption names key ∧ ResolvedOption names value
    | .weak => weakTarget.isSome ∧ ResolvedOption names weakTarget
    | .named => ∃ index, namedTypeIndex = some index ∧ name = names.named index
    | .record => ∃ index, recordLayoutIndex = some index ∧ name = names.record index
    | .variant => ∃ index, variantLayoutIndex = some index ∧ name = names.variant index
    | .typeParameter | .nil | .invalid => False

def ResolvedOption (names : NominalNames) : Option TypeSpec → Prop
  | none => True
  | some type => type.Resolved names

def ResolvedList (names : NominalNames) : List TypeSpec → Prop
  | [] => True
  | type :: types => type.Resolved names ∧ ResolvedList names types

end

/-! ## Concrete types -/

/-- What a concrete type is. -/
inductive ConcreteType where
  | int64
  | bool
  | str
  | builder
  | opaquePair
  | pair (left right : ConcreteType)
  | array (element : ConcreteType)
  | function (parameters : List ConcreteType) (result : ConcreteType)
  | map (key value : ConcreteType)
  | weak (target : ConcreteType)
  | ephemeron (key value : ConcreteType)
  | named (index : ℕ)
  | record (index : ℕ)
  | variant (index : ℕ)

mutual

/-- The tree of a concrete type. A type that is not concrete has no meaning here, and its
tree is any. -/
def TypeSpec.tree : TypeSpec → ConcreteType
  | { kind, left, right, element, key, value, weakTarget, functionParameters, functionReturn,
      namedTypeIndex, recordLayoutIndex, variantLayoutIndex, .. } =>
    match kind with
    | .int64 => .int64
    | .bool => .bool
    | .str => .str
    | .builder => .builder
    | .pair =>
      if left.isSome && right.isSome then .pair (treeOption left) (treeOption right)
      else .opaquePair
    | .array => .array (treeOption element)
    | .function => .function (treeList functionParameters) (treeOption functionReturn)
    | .map => .map (treeOption key) (treeOption value)
    | .weak => .weak (treeOption weakTarget)
    | .ephemeron => .ephemeron (treeOption key) (treeOption value)
    | .named => .named (namedTypeIndex.getD noIndex)
    | .record => .record (recordLayoutIndex.getD noIndex)
    | .variant => .variant (variantLayoutIndex.getD noIndex)
    | .typeParameter | .nil | .invalid => .opaquePair

def treeOption : Option TypeSpec → ConcreteType
  | none => .opaquePair
  | some type => type.tree

def treeList : List TypeSpec → List ConcreteType
  | [] => []
  | type :: types => type.tree :: treeList types

end

/-- The text of a nominal type in a key. -/
def nominalText (tag : Char) (index : ℕ) (name : String) : List Char :=
  tag :: (Nat.toDigits 10 index ++ [':'] ++ (Nat.toDigits 10 name.utf8ByteSize ++ [':'] ++
    name.toList))

mutual

/-- The text of a concrete type in a key. -/
def ConcreteType.text (names : NominalNames) : ConcreteType → List Char
  | .int64 => ['I']
  | .bool => ['B']
  | .str => ['S']
  | .builder => ['U']
  | .opaquePair => ['P', '0']
  | .pair left right => 'P' :: '2' :: '[' :: (left.text names ++ ']' :: '[' ::
      (right.text names ++ [']']))
  | .array element => 'A' :: '[' :: (element.text names ++ [']'])
  | .function parameters result => 'F' :: (Nat.toDigits 10 parameters.length ++ ['['] ++
      (parametersText names parameters ++ ']' :: '[' :: (result.text names ++ [']'])))
  | .map key value => 'M' :: '[' :: (key.text names ++ ']' :: '[' ::
      (value.text names ++ [']']))
  | .weak target => 'W' :: '[' :: (target.text names ++ [']'])
  | .ephemeron key value => 'E' :: '[' :: (key.text names ++ ']' :: '[' ::
      (value.text names ++ [']']))
  | .named index => nominalText 'N' index (names.named index)
  | .record index => nominalText 'R' index (names.record index)
  | .variant index => nominalText 'V' index (names.variant index)

def parametersText (names : NominalNames) : List ConcreteType → List Char
  | [] => []
  | parameter :: parameters =>
    parameter.text names ++ ';' :: parametersText names parameters

end

end LanguageRuntime.Frontend
