import LanguageRuntime.Frontend.Syntax

/-!
# Monomorphisation

`src/frontend/generics.cpp`: substitution of type parameters, the clone of a template's
body, the canonical key of a tuple of type arguments and the four instantiations. An
`Except String` holds the message of the `std::logic_error` the source throws. A node that
the source clones into a default-constructed one is rebuilt here from the fields the source
assigns, so that a field it does not assign keeps its default.
-/

namespace LanguageRuntime.Frontend

/-! ## Substitution -/

mutual

/-- `substitute_type`. -/
def substituteType (arguments : List TypeSpec) : TypeSpec → Except String TypeSpec
  | { kind, left, right, element, key, value, weakTarget, functionParameters, functionReturn,
      name, position, namedTypeIndex, recordLayoutIndex, variantLayoutIndex,
      typeParameterIndex, genericArguments, genericDeclarationIndex } =>
    if kind = .typeParameter then
      match typeParameterIndex.bind (arguments[·]?) with
      | none => throw "generic type parameter index is out of range"
      | some substituted => pure { substituted with position := position }
    else do
      let left ← substituteTypeOption arguments left
      let right ← substituteTypeOption arguments right
      let element ← substituteTypeOption arguments element
      let key ← substituteTypeOption arguments key
      let value ← substituteTypeOption arguments value
      let weakTarget ← substituteTypeOption arguments weakTarget
      let functionParameters ← substituteTypes arguments functionParameters
      let functionReturn ← substituteTypeOption arguments functionReturn
      let genericArguments ← substituteTypes arguments genericArguments
      pure { kind, left, right, element, key, value, weakTarget, functionParameters,
             functionReturn, name, position, namedTypeIndex, recordLayoutIndex,
             variantLayoutIndex, typeParameterIndex, genericArguments,
             genericDeclarationIndex }

def substituteTypeOption (arguments : List TypeSpec) :
    Option TypeSpec → Except String (Option TypeSpec)
  | none => pure none
  | some type => do
    let type ← substituteType arguments type
    pure (some type)

def substituteTypes (arguments : List TypeSpec) :
    List TypeSpec → Except String (List TypeSpec)
  | [] => pure []
  | type :: types => do
    let type ← substituteType arguments type
    let types ← substituteTypes arguments types
    pure (type :: types)

end

/-- The copy of a parameter that `clone_lambda` and `instantiate_generic_function` make. -/
def cloneParameter (arguments : List TypeSpec) (source : Parameter) :
    Except String Parameter := do
  let type ← substituteType arguments source.type
  pure { name := source.name, position := source.position, type := type }

/-- The copy of a binding that `clone_match_arm` makes. -/
def cloneMatchBinding (binding : MatchBinding) : MatchBinding :=
  { name := binding.name, position := binding.position, localIndex := 0 }

/-! ## The clone of a body -/

mutual

/-- `clone_expr`. -/
def cloneExpr (arguments : List TypeSpec) : Expr → Except String Expr
  | { kind, position, operatorPosition, intValue, boolValue, stringValue, name, binaryOp,
      pairSite, left, right, receiver, arrayElementType, mapKeyType, mapValueType,
      arguments := callArguments, explicitTypeArguments, typeArgumentsPosition, fieldNames,
      fieldPositions, lambda, .. } => do
    let arrayElementType ← substituteType arguments arrayElementType
    let mapKeyType ← substituteType arguments mapKeyType
    let mapValueType ← substituteType arguments mapValueType
    let explicitTypeArguments ← substituteTypes arguments explicitTypeArguments
    let left ← cloneExprOption arguments left
    let right ← cloneExprOption arguments right
    let receiver ← cloneExprOption arguments receiver
    let callArguments ← cloneExprs arguments callArguments
    let lambda ← cloneLambdaOption arguments lambda
    pure { kind, position, operatorPosition, intValue, boolValue, stringValue, name, binaryOp,
           pairSite, arrayElementType, mapKeyType, mapValueType, typeArgumentsPosition,
           explicitTypeArguments, left, right, receiver, arguments := callArguments,
           fieldNames, fieldPositions, lambda }

def cloneExprOption (arguments : List TypeSpec) : Option Expr → Except String (Option Expr)
  | none => pure none
  | some source => do
    let expr ← cloneExpr arguments source
    pure (some expr)

def cloneExprs (arguments : List TypeSpec) : List Expr → Except String (List Expr)
  | [] => pure []
  | source :: sources => do
    let expr ← cloneExpr arguments source
    let exprs ← cloneExprs arguments sources
    pure (expr :: exprs)

/-- `clone_lambda`. -/
def cloneLambda (arguments : List TypeSpec) : LambdaExpr → Except String LambdaExpr
  | { position, parameters, returnType, statements, result, .. } => do
    let parameters ← parameters.mapM (cloneParameter arguments)
    let returnType ← substituteType arguments returnType
    let statements ← cloneStatements arguments statements
    let result ← cloneExprOption arguments result
    pure { position, parameters, returnType, statements, result }

def cloneLambdaOption (arguments : List TypeSpec) :
    Option LambdaExpr → Except String (Option LambdaExpr)
  | none => pure none
  | some source => do
    let lambda ← cloneLambda arguments source
    pure (some lambda)

def cloneLValueStep (arguments : List TypeSpec) : LValueStep → Except String LValueStep
  | { kind, name, position, index, .. } => do
    let index ← cloneExprOption arguments index
    pure { kind, name, position, index }

def cloneLValueSteps (arguments : List TypeSpec) :
    List LValueStep → Except String (List LValueStep)
  | [] => pure []
  | source :: sources => do
    let step ← cloneLValueStep arguments source
    let steps ← cloneLValueSteps arguments sources
    pure (step :: steps)

/-- `clone_lvalue`. -/
def cloneLValue (arguments : List TypeSpec) : LValue → Except String LValue
  | { baseName, basePosition, steps, .. } => do
    let steps ← cloneLValueSteps arguments steps
    pure { baseName, basePosition, steps }

/-- `clone_match_arm`. -/
def cloneMatchArm (arguments : List TypeSpec) : MatchArm → Except String MatchArm
  | { caseName, position, bindings, body, .. } => do
    let body ← cloneStatements arguments body
    pure { caseName, position, bindings := bindings.map cloneMatchBinding, body }

def cloneMatchArms (arguments : List TypeSpec) :
    List MatchArm → Except String (List MatchArm)
  | [] => pure []
  | source :: sources => do
    let arm ← cloneMatchArm arguments source
    let arms ← cloneMatchArms arguments sources
    pure (arm :: arms)

/-- `clone_statement`. -/
def cloneStatement (arguments : List TypeSpec) : Statement → Except String Statement
  | { kind, position, equalsPosition, name, declaredType, initializer, target, value,
      arguments := callArguments, condition, thenBranch, elseBranch, body, loopNames,
      loopNamePositions, iterable, rangeUpper, matchArms, catchBody, catchName,
      catchPosition, catchType, .. } => do
    let declaredType ← substituteType arguments declaredType
    let initializer ← cloneExprOption arguments initializer
    let target ← cloneLValue arguments target
    let value ← cloneExprOption arguments value
    let callArguments ← cloneExprs arguments callArguments
    let condition ← cloneExprOption arguments condition
    let thenBranch ← cloneStatements arguments thenBranch
    let elseBranch ← cloneStatements arguments elseBranch
    let body ← cloneStatements arguments body
    let iterable ← cloneExprOption arguments iterable
    let rangeUpper ← cloneExprOption arguments rangeUpper
    let matchArms ← cloneMatchArms arguments matchArms
    let catchBody ← cloneStatements arguments catchBody
    let catchType ← substituteType arguments catchType
    -- the four label fields are not assigned
    pure { kind, position, equalsPosition, name, declaredType, initializer, target, value,
           arguments := callArguments, condition, thenBranch, elseBranch, body, loopNames,
           loopNamePositions, iterable, rangeUpper, matchArms, catchBody, catchName,
           catchPosition, catchType }

def cloneStatements (arguments : List TypeSpec) :
    List Statement → Except String (List Statement)
  | [] => pure []
  | source :: sources => do
    let statement ← cloneStatement arguments source
    let statements ← cloneStatements arguments sources
    pure (statement :: statements)

end

/-! ## Canonical keys -/

/-- The tag, index and spelling of a nominal type in a key. -/
def nominalKey (tag : String) (index : ℕ) (name : String) : String :=
  tag ++ toString index ++ ":" ++ toString name.utf8ByteSize ++ ":" ++ name

mutual

/-- `append_key`, the text it appends. -/
def canonicalConcreteTypeKey : TypeSpec → Except String String
  | { kind, left, right, element, key, value, weakTarget, functionParameters, functionReturn,
      name, namedTypeIndex, recordLayoutIndex, variantLayoutIndex, .. } =>
    match kind with
    | .int64 => pure "I"
    | .bool => pure "B"
    | .str => pure "S"
    | .builder => pure "U"
    | .pair =>
      match left, right with
      | some left, some right => do
        let left ← canonicalConcreteTypeKey left
        let right ← canonicalConcreteTypeKey right
        pure ("P2[" ++ left ++ "][" ++ right ++ "]")
      | _, _ => pure "P0"
    | .array =>
      match element with
      | none => throw "array type omitted element in generic key"
      | some element => do
        let element ← canonicalConcreteTypeKey element
        pure ("A[" ++ element ++ "]")
    | .function =>
      match functionReturn with
      | none => throw "function type omitted return in generic key"
      | some functionReturn => do
        let parameters ← functionParameterKeys functionParameters
        let functionReturn ← canonicalConcreteTypeKey functionReturn
        pure ("F" ++ toString functionParameters.length ++ "[" ++ parameters ++ "][" ++
          functionReturn ++ "]")
    | .map =>
      match key, value with
      | some key, some value => do
        let key ← canonicalConcreteTypeKey key
        let value ← canonicalConcreteTypeKey value
        pure ("M[" ++ key ++ "][" ++ value ++ "]")
      | _, _ => throw "map type omitted entry in generic key"
    | .weak =>
      match weakTarget with
      | none => throw "weak type omitted target in generic key"
      | some weakTarget => do
        let weakTarget ← canonicalConcreteTypeKey weakTarget
        pure ("W[" ++ weakTarget ++ "]")
    | .ephemeron =>
      match key, value with
      | some key, some value => do
        let key ← canonicalConcreteTypeKey key
        let value ← canonicalConcreteTypeKey value
        pure ("E[" ++ key ++ "][" ++ value ++ "]")
      | _, _ => throw "ephemeron type omitted entry in generic key"
    | .named =>
      match namedTypeIndex with
      | none => throw "unresolved named type in generic key"
      | some index => pure (nominalKey "N" index name)
    | .record =>
      match recordLayoutIndex with
      | none => throw "unresolved record type in generic key"
      | some index => pure (nominalKey "R" index name)
    | .variant =>
      match variantLayoutIndex with
      | none => throw "unresolved variant type in generic key"
      | some index => pure (nominalKey "V" index name)
    | .typeParameter => throw "type parameter reached concrete generic key"
    | .nil => throw "nil reached concrete generic key"
    | .invalid => throw "invalid type reached concrete generic key"

/-- The parameters of a function type, each closed by a semicolon. -/
def functionParameterKeys : List TypeSpec → Except String String
  | [] => pure ""
  | parameter :: parameters => do
    let key ← canonicalConcreteTypeKey parameter
    let keys ← functionParameterKeys parameters
    pure (key ++ ";" ++ keys)

end

/-- The loop of `canonical_type_argument_tuple_key`. -/
def typeArgumentKeys : List TypeSpec → Except String String
  | [] => pure ""
  | argument :: arguments => do
    let key ← canonicalConcreteTypeKey argument
    let keys ← typeArgumentKeys arguments
    pure (toString key.utf8ByteSize ++ ":" ++ key ++ keys)

/-- `canonical_type_argument_tuple_key`. -/
def canonicalTypeArgumentTupleKey (arguments : List TypeSpec) : Except String String := do
  let keys ← typeArgumentKeys arguments
  pure ("T" ++ toString arguments.length ++ ":" ++ keys)

/-- `mangle_generic_function_name`. -/
def mangleGenericFunctionName (name : String) (arguments : List TypeSpec) :
    Except String String := do
  let key ← canonicalTypeArgumentTupleKey arguments
  pure (name ++ "$mono$" ++ key)

/-! ## Instantiation -/

/-- `instantiate_generic_function`. -/
def instantiateGenericFunction (declaration : FunctionDecl) (arguments : List TypeSpec) :
    Except String FunctionDecl := do
  if declaration.typeParameters.length ≠ arguments.length then
    throw "generic instantiation argument count mismatch"
  let name ← mangleGenericFunctionName declaration.name arguments
  let parameters ← declaration.parameters.mapM (cloneParameter arguments)
  let returnType ← substituteType arguments declaration.returnType
  let statements ← cloneStatements arguments declaration.statements
  let result ← cloneExprOption arguments declaration.result
  pure { name, position := declaration.position,
         declarationOrder := declaration.declarationOrder, parameters, returnType,
         statements, result }

/-- `instantiate_generic_type`. -/
def instantiateGenericType (declaration : TypeDecl) (arguments : List TypeSpec) :
    Except String TypeDecl := do
  if declaration.typeParameters.length ≠ arguments.length then
    throw "generic type instantiation argument count mismatch"
  let name ← mangleGenericFunctionName declaration.name arguments
  let body ← substituteType arguments declaration.body
  pure { name, position := declaration.position, bodyPosition := declaration.bodyPosition,
         body, declarationOrder := declaration.declarationOrder }

/-- The copy of a field that `instantiate_generic_record` makes. -/
def cloneRecordField (arguments : List TypeSpec) (source : RecordFieldDecl) :
    Except String RecordFieldDecl := do
  let type ← substituteType arguments source.type
  pure { name := source.name, position := source.position, type := type }

/-- `instantiate_generic_record`. -/
def instantiateGenericRecord (declaration : RecordDecl) (arguments : List TypeSpec) :
    Except String RecordDecl := do
  if declaration.typeParameters.length ≠ arguments.length then
    throw "generic record instantiation argument count mismatch"
  let name ← mangleGenericFunctionName declaration.name arguments
  let fields ← declaration.fields.mapM (cloneRecordField arguments)
  pure { name, position := declaration.position,
         declarationOrder := declaration.declarationOrder, fields }

/-- The copy of a case that `instantiate_generic_variant` makes. -/
def cloneVariantCase (arguments : List TypeSpec) (source : VariantCaseDecl) :
    Except String VariantCaseDecl := do
  let fields ← substituteTypes arguments source.fields
  pure { name := source.name, position := source.position, fields := fields }

/-- `instantiate_generic_variant`. -/
def instantiateGenericVariant (declaration : VariantDecl) (arguments : List TypeSpec) :
    Except String VariantDecl := do
  if declaration.typeParameters.length ≠ arguments.length then
    throw "generic variant instantiation argument count mismatch"
  let name ← mangleGenericFunctionName declaration.name arguments
  let cases ← declaration.cases.mapM (cloneVariantCase arguments)
  pure { name, position := declaration.position,
         declarationOrder := declaration.declarationOrder, cases }

end LanguageRuntime.Frontend
