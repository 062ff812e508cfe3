import LanguageRuntime.Frontend.Syntax

/-!
# Traversals of the syntax tree

What monomorphisation is meant to do to a tree: `mapTypes` applies a function to every type
written in a tree and keeps everything else, `TypeSpec.replaced` is the function it is
applied with, and `All` asks a test of every node. A test is a `NodeTest`; the ones used
here say that a template is resolved and not yet checked (`template`) and that it has no
loop label (`labelFree`).
-/

namespace LanguageRuntime.Frontend

/-! ## Replacing the parameters of a type -/

mutual

/-- A type with its parameters replaced by the arguments. A replaced parameter keeps the
position of its occurrence. -/
def TypeSpec.replaced (arguments : List TypeSpec) : TypeSpec → TypeSpec
  | { kind, left, right, element, key, value, weakTarget, functionParameters, functionReturn,
      name, position, namedTypeIndex, recordLayoutIndex, variantLayoutIndex,
      typeParameterIndex, genericArguments, genericDeclarationIndex } =>
    if kind = .typeParameter then
      { (typeParameterIndex.bind (arguments[·]?)).getD invalidType with position := position }
    else
      { kind, name, position, namedTypeIndex, recordLayoutIndex, variantLayoutIndex,
        typeParameterIndex, genericDeclarationIndex,
        left := replacedOption arguments left
        right := replacedOption arguments right
        element := replacedOption arguments element
        key := replacedOption arguments key
        value := replacedOption arguments value
        weakTarget := replacedOption arguments weakTarget
        functionParameters := replacedList arguments functionParameters
        functionReturn := replacedOption arguments functionReturn
        genericArguments := replacedList arguments genericArguments }

def replacedOption (arguments : List TypeSpec) : Option TypeSpec → Option TypeSpec
  | none => none
  | some type => some (type.replaced arguments)

def replacedList (arguments : List TypeSpec) : List TypeSpec → List TypeSpec
  | [] => []
  | type :: types => type.replaced arguments :: replacedList arguments types

end

mutual

/-- Every type parameter in the type is one of the first `count`. -/
def TypeSpec.Scoped (count : ℕ) : TypeSpec → Prop
  | { kind, left, right, element, key, value, weakTarget, functionParameters, functionReturn,
      typeParameterIndex, genericArguments, .. } =>
    if kind = .typeParameter then ∃ index < count, typeParameterIndex = some index
    else
      ScopedOption count left ∧ ScopedOption count right ∧ ScopedOption count element ∧
        ScopedOption count key ∧ ScopedOption count value ∧ ScopedOption count weakTarget ∧
        ScopedList count functionParameters ∧ ScopedOption count functionReturn ∧
        ScopedList count genericArguments

def ScopedOption (count : ℕ) : Option TypeSpec → Prop
  | none => True
  | some type => type.Scoped count

def ScopedList (count : ℕ) : List TypeSpec → Prop
  | [] => True
  | type :: types => type.Scoped count ∧ ScopedList count types

end

/-! ## Applying a function to every type -/

def Parameter.mapTypes (f : TypeSpec → TypeSpec) (parameter : Parameter) : Parameter :=
  { parameter with type := f parameter.type }

mutual

def Expr.mapTypes (f : TypeSpec → TypeSpec) : Expr → Expr
  | { kind, position, operatorPosition, intValue, boolValue, stringValue, name, binaryOp,
      pairSite, calleeIndex, left, right, receiver, arrayElementType, mapKeyType,
      mapValueType, arguments, explicitTypeArguments, typeArgumentsPosition, fieldNames,
      fieldPositions, inferredType, objectSites, localIndex, closureLayoutIndex,
      captureIndex, isCapture, isFunctionReference, directCall, recordLayoutIndex,
      recordFieldIndex, variantLayoutIndex, variantCaseIndex, lambda } =>
    { kind, position, operatorPosition, intValue, boolValue, stringValue, name, binaryOp,
      pairSite, calleeIndex, typeArgumentsPosition, fieldNames, fieldPositions,
      inferredType, objectSites, localIndex, closureLayoutIndex, captureIndex, isCapture,
      isFunctionReference, directCall, recordLayoutIndex, recordFieldIndex,
      variantLayoutIndex, variantCaseIndex,
      left := mapTypesExprOption f left
      right := mapTypesExprOption f right
      receiver := mapTypesExprOption f receiver
      arrayElementType := f arrayElementType
      mapKeyType := f mapKeyType
      mapValueType := f mapValueType
      arguments := mapTypesExprs f arguments
      explicitTypeArguments := explicitTypeArguments.map f
      lambda := mapTypesLambdaOption f lambda }

def mapTypesExprOption (f : TypeSpec → TypeSpec) : Option Expr → Option Expr
  | none => none
  | some expr => some (expr.mapTypes f)

def mapTypesExprs (f : TypeSpec → TypeSpec) : List Expr → List Expr
  | [] => []
  | expr :: exprs => expr.mapTypes f :: mapTypesExprs f exprs

def LambdaExpr.mapTypes (f : TypeSpec → TypeSpec) : LambdaExpr → LambdaExpr
  | { position, parameters, returnType, statements, result, captures, functionIndex,
      closureLayoutIndex, localCount } =>
    { position, captures, functionIndex, closureLayoutIndex, localCount,
      parameters := parameters.map (Parameter.mapTypes f)
      returnType := f returnType
      statements := mapTypesStatements f statements
      result := mapTypesExprOption f result }

def mapTypesLambdaOption (f : TypeSpec → TypeSpec) : Option LambdaExpr → Option LambdaExpr
  | none => none
  | some lambda => some (lambda.mapTypes f)

def LValueStep.mapTypes (f : TypeSpec → TypeSpec) : LValueStep → LValueStep
  | { kind, name, position, index, receiverType, elementType, recordLayoutIndex,
      recordFieldIndex } =>
    { kind, name, position, receiverType, elementType, recordLayoutIndex, recordFieldIndex,
      index := mapTypesExprOption f index }

def mapTypesLValueSteps (f : TypeSpec → TypeSpec) : List LValueStep → List LValueStep
  | [] => []
  | step :: steps => step.mapTypes f :: mapTypesLValueSteps f steps

def LValue.mapTypes (f : TypeSpec → TypeSpec) : LValue → LValue
  | { baseName, basePosition, localIndex, steps, receiverType, elementType } =>
    { baseName, basePosition, localIndex, receiverType, elementType,
      steps := mapTypesLValueSteps f steps }

def MatchArm.mapTypes (f : TypeSpec → TypeSpec) : MatchArm → MatchArm
  | { caseName, position, bindings, body, caseIndex } =>
    { caseName, position, bindings, caseIndex, body := mapTypesStatements f body }

def mapTypesMatchArms (f : TypeSpec → TypeSpec) : List MatchArm → List MatchArm
  | [] => []
  | arm :: arms => arm.mapTypes f :: mapTypesMatchArms f arms

def Statement.mapTypes (f : TypeSpec → TypeSpec) : Statement → Statement
  | { kind, position, equalsPosition, name, declaredType, localIndex, initializer, target,
      value, arguments, condition, thenBranch, elseBranch, body, loopNames,
      loopNamePositions, loopLocalIndices, loopLabel, loopLabelPosition, loopControlLabel,
      loopControlLabelPosition, iterable, rangeUpper, loopLocalsAllocated,
      matchLocalsAllocated, matchArms, matchVariantLayoutIndex, catchBody, catchName,
      catchPosition, catchType, catchLocalIndex, catchLocalAllocated } =>
    { kind, position, equalsPosition, name, localIndex, loopNames, loopNamePositions,
      loopLocalIndices, loopLabel, loopLabelPosition, loopControlLabel,
      loopControlLabelPosition, loopLocalsAllocated, matchLocalsAllocated,
      matchVariantLayoutIndex, catchName, catchPosition, catchLocalIndex,
      catchLocalAllocated,
      declaredType := f declaredType
      initializer := mapTypesExprOption f initializer
      target := target.mapTypes f
      value := mapTypesExprOption f value
      arguments := mapTypesExprs f arguments
      condition := mapTypesExprOption f condition
      thenBranch := mapTypesStatements f thenBranch
      elseBranch := mapTypesStatements f elseBranch
      body := mapTypesStatements f body
      iterable := mapTypesExprOption f iterable
      rangeUpper := mapTypesExprOption f rangeUpper
      matchArms := mapTypesMatchArms f matchArms
      catchBody := mapTypesStatements f catchBody
      catchType := f catchType }

def mapTypesStatements (f : TypeSpec → TypeSpec) : List Statement → List Statement
  | [] => []
  | statement :: statements => statement.mapTypes f :: mapTypesStatements f statements

end

/-! ## Testing every node -/

/-- What is asked of the types written in a tree and of the own fields of its nodes. -/
structure NodeTest where
  type : TypeSpec → Prop := fun _ => True
  parameter : Parameter → Prop := fun _ => True
  binding : MatchBinding → Prop := fun _ => True
  expr : Expr → Prop := fun _ => True
  lambda : LambdaExpr → Prop := fun _ => True
  step : LValueStep → Prop := fun _ => True
  target : LValue → Prop := fun _ => True
  arm : MatchArm → Prop := fun _ => True
  statement : Statement → Prop := fun _ => True

def Parameter.All (test : NodeTest) (parameter : Parameter) : Prop :=
  test.parameter parameter ∧ test.type parameter.type

mutual

def Expr.All (test : NodeTest) : Expr → Prop
  | expr@{ left, right, receiver, arrayElementType, mapKeyType, mapValueType, arguments,
           explicitTypeArguments, lambda, .. } =>
    test.expr expr ∧ test.type arrayElementType ∧ test.type mapKeyType ∧
      test.type mapValueType ∧ (∀ type ∈ explicitTypeArguments, test.type type) ∧
      AllExprOption test left ∧ AllExprOption test right ∧ AllExprOption test receiver ∧
      AllExprs test arguments ∧ AllLambdaOption test lambda

def AllExprOption (test : NodeTest) : Option Expr → Prop
  | none => True
  | some expr => expr.All test

def AllExprs (test : NodeTest) : List Expr → Prop
  | [] => True
  | expr :: exprs => expr.All test ∧ AllExprs test exprs

def LambdaExpr.All (test : NodeTest) : LambdaExpr → Prop
  | lambda@{ parameters, returnType, statements, result, .. } =>
    test.lambda lambda ∧ (∀ parameter ∈ parameters, parameter.All test) ∧
      test.type returnType ∧ AllStatements test statements ∧ AllExprOption test result

def AllLambdaOption (test : NodeTest) : Option LambdaExpr → Prop
  | none => True
  | some lambda => lambda.All test

def LValueStep.All (test : NodeTest) : LValueStep → Prop
  | step@{ index, .. } => test.step step ∧ AllExprOption test index

def AllLValueSteps (test : NodeTest) : List LValueStep → Prop
  | [] => True
  | step :: steps => step.All test ∧ AllLValueSteps test steps

def LValue.All (test : NodeTest) : LValue → Prop
  | target@{ steps, .. } => test.target target ∧ AllLValueSteps test steps

def MatchArm.All (test : NodeTest) : MatchArm → Prop
  | arm@{ bindings, body, .. } =>
    test.arm arm ∧ (∀ binding ∈ bindings, test.binding binding) ∧ AllStatements test body

def AllMatchArms (test : NodeTest) : List MatchArm → Prop
  | [] => True
  | arm :: arms => arm.All test ∧ AllMatchArms test arms

def Statement.All (test : NodeTest) : Statement → Prop
  | statement@{ declaredType, initializer, target, value, arguments, condition, thenBranch,
                elseBranch, body, iterable, rangeUpper, matchArms, catchBody, catchType,
                .. } =>
    test.statement statement ∧ test.type declaredType ∧ AllExprOption test initializer ∧
      target.All test ∧ AllExprOption test value ∧ AllExprs test arguments ∧
      AllExprOption test condition ∧ AllStatements test thenBranch ∧
      AllStatements test elseBranch ∧ AllStatements test body ∧
      AllExprOption test iterable ∧ AllExprOption test rangeUpper ∧
      AllMatchArms test matchArms ∧ AllStatements test catchBody ∧ test.type catchType

def AllStatements (test : NodeTest) : List Statement → Prop
  | [] => True
  | statement :: statements => statement.All test ∧ AllStatements test statements

end

/-! ## The tests of a template -/

/-- The fields the checker fills in an expression still have their defaults. -/
def Expr.Unchecked (expr : Expr) : Prop :=
  expr.calleeIndex = 0 ∧ expr.inferredType = invalidType ∧ expr.objectSites = [] ∧
    expr.localIndex = 0 ∧ expr.closureLayoutIndex = 0 ∧ expr.captureIndex = 0 ∧
    expr.isCapture = false ∧ expr.isFunctionReference = false ∧ expr.directCall = false ∧
    expr.recordLayoutIndex = noIndex ∧ expr.recordFieldIndex = noIndex ∧
    expr.variantLayoutIndex = noIndex ∧ expr.variantCaseIndex = noIndex

def LambdaExpr.Unchecked (lambda : LambdaExpr) : Prop :=
  lambda.captures = [] ∧ lambda.functionIndex = 0 ∧ lambda.closureLayoutIndex = 0 ∧
    lambda.localCount = 0

def LValueStep.Unchecked (step : LValueStep) : Prop :=
  step.receiverType = invalidType ∧ step.elementType = invalidType ∧
    step.recordLayoutIndex = noIndex ∧ step.recordFieldIndex = noIndex

def LValue.Unchecked (target : LValue) : Prop :=
  target.localIndex = 0 ∧ target.receiverType = invalidType ∧
    target.elementType = invalidType

def Statement.Unchecked (statement : Statement) : Prop :=
  statement.localIndex = 0 ∧ statement.loopLocalIndices = [] ∧
    statement.loopLocalsAllocated = false ∧ statement.matchLocalsAllocated = false ∧
    statement.matchVariantLayoutIndex = noIndex ∧ statement.catchLocalIndex = 0 ∧
    statement.catchLocalAllocated = false

/-- A template over `count` type parameters, its types resolved and its body not checked. -/
def template (count : ℕ) : NodeTest where
  type := TypeSpec.Scoped count
  parameter := fun parameter => parameter.localIndex = 0
  binding := fun binding => binding.localIndex = 0
  expr := Expr.Unchecked
  lambda := LambdaExpr.Unchecked
  step := LValueStep.Unchecked
  target := LValue.Unchecked
  arm := fun arm => arm.caseIndex = noIndex
  statement := Statement.Unchecked

/-- The statement is not a labelled loop and names no label in a `break` or `continue`. -/
def Statement.LabelFree (statement : Statement) : Prop :=
  statement.loopLabel = "" ∧ statement.loopLabelPosition = {} ∧
    statement.loopControlLabel = "" ∧ statement.loopControlLabelPosition = {}

def labelFree : NodeTest where
  statement := Statement.LabelFree

section LabelFree

@[simp] theorem labelFree_type (type : TypeSpec) : labelFree.type type := trivial
@[simp] theorem labelFree_parameter (parameter : Parameter) :
    labelFree.parameter parameter := trivial
@[simp] theorem labelFree_binding (binding : MatchBinding) : labelFree.binding binding := trivial
@[simp] theorem labelFree_expr (expr : Expr) : labelFree.expr expr := trivial
@[simp] theorem labelFree_lambda (lambda : LambdaExpr) : labelFree.lambda lambda := trivial
@[simp] theorem labelFree_step (step : LValueStep) : labelFree.step step := trivial
@[simp] theorem labelFree_target (target : LValue) : labelFree.target target := trivial
@[simp] theorem labelFree_arm (arm : MatchArm) : labelFree.arm arm := trivial

@[simp] theorem labelFree_statement (statement : Statement) :
    labelFree.statement statement ↔ statement.LabelFree := Iff.rfl

end LabelFree

/-! ## Declarations -/

mutual

/-- A concrete type: every component is there, every nominal type is resolved, and neither
a type parameter nor the type of `nil` occurs. -/
def TypeSpec.Concrete : TypeSpec → Prop
  | { kind, left, right, element, key, value, weakTarget, functionParameters, functionReturn,
      namedTypeIndex, recordLayoutIndex, variantLayoutIndex, .. } =>
    match kind with
    | .int64 | .bool | .str | .builder => True
    | .pair => ConcreteOption left ∧ ConcreteOption right
    | .array => element.isSome ∧ ConcreteOption element
    | .function =>
      functionReturn.isSome ∧ ConcreteList functionParameters ∧ ConcreteOption functionReturn
    | .map | .ephemeron =>
      key.isSome ∧ value.isSome ∧ ConcreteOption key ∧ ConcreteOption value
    | .weak => weakTarget.isSome ∧ ConcreteOption weakTarget
    | .named => namedTypeIndex.isSome
    | .record => recordLayoutIndex.isSome
    | .variant => variantLayoutIndex.isSome
    | .typeParameter | .nil | .invalid => False

def ConcreteOption : Option TypeSpec → Prop
  | none => True
  | some type => type.Concrete

def ConcreteList : List TypeSpec → Prop
  | [] => True
  | type :: types => type.Concrete ∧ ConcreteList types

end

/-- A generic function as the checker hands it to the instantiation: it declares `count`
type parameters, its types are resolved and its body is not checked. -/
structure FunctionDecl.Template (declaration : FunctionDecl) (count : ℕ) : Prop where
  arity : declaration.typeParameters.length = count
  parameters : ∀ parameter ∈ declaration.parameters, parameter.All (template count)
  returnType : declaration.returnType.Scoped count
  statements : AllStatements (template count) declaration.statements
  result : AllExprOption (template count) declaration.result
  functionIndex : declaration.functionIndex = 0
  closureLayoutIndex : declaration.closureLayoutIndex = 0
  localCount : declaration.localCount = 0

structure TypeDecl.Template (declaration : TypeDecl) (count : ℕ) : Prop where
  arity : declaration.typeParameters.length = count
  body : declaration.body.Scoped count
  typeIndex : declaration.typeIndex = noIndex

structure RecordDecl.Template (declaration : RecordDecl) (count : ℕ) : Prop where
  arity : declaration.typeParameters.length = count
  fields : ∀ field ∈ declaration.fields, field.type.Scoped count
  layoutIndex : declaration.layoutIndex = noIndex

structure VariantDecl.Template (declaration : VariantDecl) (count : ℕ) : Prop where
  arity : declaration.typeParameters.length = count
  cases : ∀ case ∈ declaration.cases, ∀ type ∈ case.fields, type.Scoped count
  layoutIndex : declaration.layoutIndex = noIndex

/-- The instance written out by hand: the declaration under its own name, without type
parameters and with the arguments in their place. -/
def FunctionDecl.replaced (declaration : FunctionDecl) (name : String)
    (arguments : List TypeSpec) : FunctionDecl :=
  { declaration with
    name := name
    typeParameters := []
    parameters := declaration.parameters.map (Parameter.mapTypes (.replaced arguments))
    returnType := declaration.returnType.replaced arguments
    statements := mapTypesStatements (.replaced arguments) declaration.statements
    result := mapTypesExprOption (.replaced arguments) declaration.result }

def TypeDecl.replaced (declaration : TypeDecl) (name : String) (arguments : List TypeSpec) :
    TypeDecl :=
  { declaration with
    name := name
    typeParameters := []
    body := declaration.body.replaced arguments }

def RecordDecl.replaced (declaration : RecordDecl) (name : String)
    (arguments : List TypeSpec) : RecordDecl :=
  { declaration with
    name := name
    typeParameters := []
    fields := declaration.fields.map fun field =>
      { field with type := field.type.replaced arguments } }

def VariantDecl.replaced (declaration : VariantDecl) (name : String)
    (arguments : List TypeSpec) : VariantDecl :=
  { declaration with
    name := name
    typeParameters := []
    cases := declaration.cases.map fun case =>
      { case with fields := case.fields.map (.replaced arguments) } }

/-- No loop label in the body, lambdas included. -/
def FunctionDecl.LabelFree (declaration : FunctionDecl) : Prop :=
  AllStatements labelFree declaration.statements ∧ AllExprOption labelFree declaration.result

end LanguageRuntime.Frontend
