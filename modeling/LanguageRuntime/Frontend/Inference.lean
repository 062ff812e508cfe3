import LanguageRuntime.Frontend.TypeEquality
import LanguageRuntime.Library.Matching

/-!
# Inference of type arguments

`infer_type_arguments` and `infer_generic_arguments` of
`src/frontend/type_checker_internal.cpp`. The bindings and the conflict flag are a state of
`Library.Matching`, and `&&` between two calls is its `both`. What the inference is meant to
find is `Matches`: how a pattern reads an argument type once the type parameters are known.
-/

namespace LanguageRuntime.Frontend

open Library Matching

/-- `nil_type`. -/
def nilType : TypeSpec := { kind := .nil }

mutual

/-- `contains_type_parameter`. -/
def containsTypeParameter : TypeSpec → Bool
  | { kind, left, right, element, key, value, weakTarget, functionParameters, functionReturn,
      genericArguments, .. } =>
    kind = .typeParameter || optionContainsTypeParameter left ||
      optionContainsTypeParameter right || optionContainsTypeParameter element ||
      optionContainsTypeParameter key || optionContainsTypeParameter value ||
      optionContainsTypeParameter weakTarget || anyContainsTypeParameter functionParameters ||
      anyContainsTypeParameter genericArguments || optionContainsTypeParameter functionReturn

def optionContainsTypeParameter : Option TypeSpec → Bool
  | none => false
  | some type => containsTypeParameter type

def anyContainsTypeParameter : List TypeSpec → Bool
  | [] => false
  | type :: types => containsTypeParameter type || anyContainsTypeParameter types

end

/-- The types a type parameter may be bound to. -/
def bindable (actual : TypeSpec) : Bool :=
  !(actual.kind = .nil || actual.kind = .invalid || containsTypeParameter actual)

mutual

/-- `infer_type_arguments`. -/
def inferTypeArguments : TypeSpec → TypeSpec → Step TypeSpec
  | pattern@{
      kind, left, right, element, key, value, weakTarget, functionParameters,
      functionReturn, typeParameterIndex, genericArguments, genericDeclarationIndex, .. },
      actual =>
    if kind = .typeParameter then
      match typeParameterIndex with
      | none => guard false
      | some index => bindParameter bindable TypeSpec.equals index actual
    else if genericDeclarationIndex.isSome then
      if genericDeclarationIndex = actual.genericDeclarationIndex &&
          genericArguments.length = actual.genericArguments.length then
        inferList genericArguments actual.genericArguments
      else guard false
    else if kind ≠ actual.kind then guard false
    else
      match kind with
      | .pair =>
        if left.isSome && right.isSome then
          if actual.hasPairFields then
            both (inferOption left actual.left) (inferOption right actual.right)
          else guard false
        else guard true
      | .array =>
        if element.isSome && actual.element.isSome then inferOption element actual.element
        else guard false
      | .function =>
        if functionReturn.isSome && actual.functionReturn.isSome &&
            functionParameters.length = actual.functionParameters.length then
          both (inferList functionParameters actual.functionParameters)
            (inferOption functionReturn actual.functionReturn)
        else guard false
      | .map | .ephemeron =>
        if key.isSome && value.isSome && actual.key.isSome && actual.value.isSome then
          both (inferOption key actual.key) (inferOption value actual.value)
        else guard false
      | .weak =>
        if weakTarget.isSome && actual.weakTarget.isSome then
          inferOption weakTarget actual.weakTarget
        else guard false
      | .int64 | .bool | .str | .builder | .named | .record | .variant =>
        guard (pattern.equals actual)
      | .typeParameter | .nil | .invalid => guard false

/-- The recursive call on two pointers that are not null. -/
def inferOption : Option TypeSpec → Option TypeSpec → Step TypeSpec
  | some pattern, some actual => inferTypeArguments pattern actual
  | _, _ => guard false

/-- The loop over two vectors of one size. -/
def inferList : List TypeSpec → List TypeSpec → Step TypeSpec
  | [], [] => guard true
  | pattern :: patterns, actual :: actuals =>
    both (inferTypeArguments pattern actual) (inferList patterns actuals)
  | _, _ => guard false

end

/-- The loop of `infer_generic_arguments` over the arguments, which does not stop at one that
does not match. -/
def inferArguments : List TypeSpec → List TypeSpec → Step TypeSpec
  | pattern :: patterns, actual :: actuals =>
    also (inferTypeArguments pattern actual) (inferArguments patterns actuals)
  | _, _ => guard true

def arityMessage (generic : FunctionDecl) (count : ℕ) : String :=
  "generic function '" ++ generic.name ++ "' expects " ++ toString generic.parameters.length ++
    " argument(s) but got " ++ toString count

def unboundMessage (generic : FunctionDecl) (parameter : TypeParameterDecl) : String :=
  "cannot infer type argument '" ++ parameter.name ++ "' for generic function '" ++
    generic.name ++ "'; use explicit type arguments"

def ambiguousMessage (generic : FunctionDecl) : String :=
  "cannot infer unambiguous type arguments for generic function '" ++ generic.name ++
    "'; use explicit type arguments"

/-- The loop that looks for a parameter without a binding: the type arguments, or the first
such parameter. -/
def collectBindings : List TypeParameterDecl → List (Option TypeSpec) →
    Except TypeParameterDecl (List TypeSpec)
  | parameter :: _, none :: _ => throw parameter
  | _ :: parameters, some binding :: bindings => do
    let result ← collectBindings parameters bindings
    pure (binding :: result)
  | _, _ => pure []

/-- `infer_generic_arguments`, for the types of the arguments of a call at a position. -/
def inferGenericArguments (position : SourcePosition) (generic : FunctionDecl)
    (arguments : List TypeSpec) : Except Diagnostic (List TypeSpec) :=
  if arguments.length ≠ generic.parameters.length then
    throw { position := position, message := arityMessage generic arguments.length }
  else
    let (matched, state) := inferArguments (generic.parameters.map (·.type)) arguments
      (start generic.typeParameters.length)
    match collectBindings generic.typeParameters state.bindings with
    | .error parameter =>
      throw { position := position, message := unboundMessage generic parameter }
    | .ok result =>
      if !matched || state.conflict then
        throw { position := position, message := ambiguousMessage generic }
      else pure result

/-! ## What is inferred -/

/-- The fields that the kind of a type asks for. -/
def TypeSpec.Complete (type : TypeSpec) : Prop :=
  match type.kind with
  | .array => type.element.isSome
  | .function => type.functionReturn.isSome
  | .map | .ephemeron => type.key.isSome ∧ type.value.isSome
  | .weak => type.weakTarget.isSome
  | .named => type.namedTypeIndex.isSome
  | .record => type.recordLayoutIndex.isSome
  | .variant => type.variantLayoutIndex.isSome
  | .int64 | .bool | .str | .builder | .pair | .typeParameter | .nil | .invalid => True

mutual

/-- A type whose nominal types have an index and whose array, map, weak, ephemeron and function
types have their components, as every type the checker gives to an expression. -/
def TypeSpec.Settled : TypeSpec → Prop
  | type@{
      left, right, element, key, value, weakTarget, functionParameters, functionReturn,
      genericArguments, .. } =>
    type.Complete ∧ SettledOption left ∧ SettledOption right ∧ SettledOption element ∧
      SettledOption key ∧ SettledOption value ∧ SettledOption weakTarget ∧
      SettledList functionParameters ∧ SettledOption functionReturn ∧
      SettledList genericArguments

def SettledOption : Option TypeSpec → Prop
  | none => True
  | some type => type.Settled

def SettledList : List TypeSpec → Prop
  | [] => True
  | type :: types => type.Settled ∧ SettledList types

end

mutual

/-- A pattern reads an argument type once the type parameters have their values: a type
parameter reads the types equal to its value, unless they are nil, invalid or not concrete; a
generic type reads the instances of its declaration whose arguments its arguments read; an
opaque pair reads every pair; any other type reads the types of its kind whose components its
components read, or that are equal to it where it has none. -/
def Matches (substitution : List TypeSpec) : TypeSpec → TypeSpec → Prop
  | pattern@{
      kind, left, right, element, key, value, weakTarget, functionParameters,
      functionReturn, typeParameterIndex, genericArguments, genericDeclarationIndex, .. },
      actual =>
    if kind = .typeParameter then
      ∃ index, typeParameterIndex = some index ∧ bindable actual = true ∧
        ∃ value, substitution[index]? = some value ∧ value.equals actual = true
    else if genericDeclarationIndex.isSome then
      genericDeclarationIndex = actual.genericDeclarationIndex ∧
        MatchesList substitution genericArguments actual.genericArguments
    else if kind ≠ actual.kind then False
    else
      match kind with
      | .pair =>
        if left.isSome && right.isSome then
          MatchesOption substitution left actual.left ∧
            MatchesOption substitution right actual.right
        else True
      | .array => MatchesOption substitution element actual.element
      | .function =>
        MatchesList substitution functionParameters actual.functionParameters ∧
          MatchesOption substitution functionReturn actual.functionReturn
      | .map | .ephemeron =>
        MatchesOption substitution key actual.key ∧
          MatchesOption substitution value actual.value
      | .weak => MatchesOption substitution weakTarget actual.weakTarget
      | .int64 | .bool | .str | .builder | .named | .record | .variant =>
        pattern.equals actual = true
      | .typeParameter | .nil | .invalid => False

def MatchesOption (substitution : List TypeSpec) : Option TypeSpec → Option TypeSpec → Prop
  | some pattern, some actual => Matches substitution pattern actual
  | _, _ => False

def MatchesList (substitution : List TypeSpec) : List TypeSpec → List TypeSpec → Prop
  | [], [] => True
  | pattern :: patterns, actual :: actuals =>
    Matches substitution pattern actual ∧ MatchesList substitution patterns actuals
  | _, _ => False

end

/-- A substitution that binds every type parameter of a function and matches each parameter
with its argument. -/
def FunctionDecl.Instantiates (generic : FunctionDecl) (arguments substitution : List TypeSpec) :
    Prop :=
  Solves TypeSpec.Settled
    (fun substitution => MatchesList substitution (generic.parameters.map (·.type)) arguments)
    generic.typeParameters.length substitution

/-- Such a substitution that every other is equal to. -/
def FunctionDecl.OnlyInstance (generic : FunctionDecl) (arguments substitution : List TypeSpec) :
    Prop :=
  generic.Instantiates arguments substitution ∧
    ∀ other, generic.Instantiates arguments other → equalsList substitution other = true

end LanguageRuntime.Frontend
