import LanguageRuntime.Bytecode.Module
import LanguageRuntime.Frontend.Fold
import LanguageRuntime.Frontend.Parser
import LanguageRuntime.Frontend.TypeEquality
import LanguageRuntime.Library.Wp

/-!
# The compiler

`src/frontend/compiler.cpp`: from a checked tree to a module, up to the two checks that end
`compile_checked_program`. An assertion that fails and a null pointer that is read stop the
compiler with an error. `compileExpr` and `compileStatement` are given the code of the parts of
their node as programs; `compilation` is the pass they make up.
-/

namespace LanguageRuntime.Frontend

open Bytecode

/-! ## Types -/

def bytecodeKind (type : TypeSpec) : Except String ValueKind :=
  match type.kind with
  | .int64 => .ok .int64
  | .bool => .ok .bool
  | .str => .ok .str
  | .pair | .named => .ok .object
  | .record => .ok .record
  | .variant => .ok .variant
  | .array => .ok .array
  | .function => .ok .function
  | .map => .ok .map
  | .weak => .ok .weak
  | .ephemeron => .ok .ephemeron
  | .builder => .ok .builder
  | .typeParameter => .error "type parameter reached concrete bytecode lowering"
  | .nil | .invalid => .ok .nil

def isMapKeyKind : TypeSpec.Kind → Bool
  | .int64 | .bool | .str => true
  | _ => false

mutual

/-- A type of which a part is missing keeps its kind only. -/
def signatureValueFromType : TypeSpec → Except String SignatureValue
  | type@{ kind, left, right, element, key, value, weakTarget, functionParameters,
           functionReturn, namedTypeIndex, recordLayoutIndex, variantLayoutIndex, .. } =>
    let leftSignature := signatureValueFromOption left
    let rightSignature := signatureValueFromOption right
    let elementSignature := signatureValueFromOption element
    let keySignature := signatureValueFromOption key
    let valueSignature := signatureValueFromOption value
    let targetSignature := signatureValueFromOption weakTarget
    let parameters := signatureValuesFromTypes functionParameters
    let returnSignature := signatureValueFromOption functionReturn
    match kind, variantLayoutIndex, recordLayoutIndex, namedTypeIndex, leftSignature,
        rightSignature, elementSignature, returnSignature, keySignature, valueSignature,
        targetSignature with
    | .variant, some index, _, _, _, _, _, _, _, _, _ => .ok (variantSignature index)
    | .record, _, some index, _, _, _, _, _, _, _, _ => .ok (recordSignature index)
    | .named, _, _, some index, _, _, _, _, _, _, _ => .ok (namedTypeSignature index)
    | .pair, _, _, _, some left, some right, _, _, _, _, _ =>
      do return pairSignature (← left) (← right)
    | .array, _, _, _, _, _, some element, _, _, _, _ => arraySignature <$> element
    | .function, _, _, _, _, _, _, some result, _, _, _ =>
      do return functionSignature (← parameters) (← result)
    | .map, _, _, _, _, _, _, _, some keySignature, some value, _ =>
      if key.all fun key => isMapKeyKind key.kind then
        do return mapSignature (← keySignature) (← value)
      else .error "compile boundary rejected an invalid map key type"
    | .weak, _, _, _, _, _, _, _, _, _, some target => weakSignature <$> target
    | .ephemeron, _, _, _, _, _, _, _, some key, some value, _ =>
      do return ephemeronSignature (← key) (← value)
    | _, _, _, _, _, _, _, _, _, _, _ => signatureValue <$> bytecodeKind type

def signatureValueFromOption : Option TypeSpec → Option (Except String SignatureValue)
  | none => none
  | some type => some (signatureValueFromType type)

def signatureValuesFromTypes : List TypeSpec → Except String (List SignatureValue)
  | [] => .ok []
  | type :: types => do
    let signature ← signatureValueFromType type
    let signatures ← signatureValuesFromTypes types
    return signature :: signatures

end

def isScalarArrayElementType (type : TypeSpec) : Bool := type.kind = .int64 || type.kind = .bool

def isRefArrayType (arrayType : TypeSpec) : Bool :=
  arrayType.kind = .array &&
    arrayType.element.any fun element => !isScalarArrayElementType element

/-! ## The state of a function's compiler -/

structure LoopPatchContext where
  breaks : List ℕ := []
  continues : List ℕ := []
  label : String

/-- The tables of the module that a compiler adds to. -/
structure Tables where
  stringConstants : List (List UInt8) := []
  mapLayouts : List MapLayout := []
  ephemeronLayouts : List EphemeronLayout := []

/-- The members of `Compiler`. The innermost loop comes first. -/
structure Compiler where
  function : Function
  currentPosition : SourcePosition := {}
  loopContexts : List LoopPatchContext := []
  activeVariantCase : Option (ℕ × ℕ) := none
  tables : Tables := {}

abbrev CompilerM := EStateM String Compiler

def require (condition : Bool) (message : String) : CompilerM Unit :=
  if condition then pure () else throw message

/-- The code of a part that must be there. -/
def deref {α : Type} (part : Option (CompilerM α)) : CompilerM α :=
  match part with
  | some part => part
  | none => throw "null pointer"

def liftExcept {α : Type} (x : Except String α) : CompilerM α := Library.query fun _ => x

/-- `PositionScope`. -/
def atPosition {α : Type} (position : SourcePosition) (part : CompilerM α) : CompilerM α := do
  let previous := (← get).currentPosition
  modify fun c => { c with currentPosition := position }
  let result ← part
  modify fun c => { c with currentPosition := previous }
  return result

def appendInstruction (instruction : Instruction) : CompilerM ℕ := do
  let c ← get
  let position : DebugSourcePosition :=
    { line := c.currentPosition.line, column := c.currentPosition.column }
  set { c with function := { c.function with
    code := c.function.code ++ [instruction]
    sourcePositions := c.function.sourcePositions ++ [position] } }
  return c.function.code.length

/-- `emit`, for the pc of the instruction. -/
def emitPc (op : OpCode) (operand : Int64) : CompilerM ℕ :=
  appendInstruction { op := op, operand := operand }

def emit (op : OpCode) (operand operand2 operand3 : Int64 := 0) : CompilerM Unit := do
  let _ ← appendInstruction
    { op := op, operand := operand, operand2 := operand2, operand3 := operand3 }

/-- `emit` of an instruction whose operand is an index. -/
def emitIndex (op : OpCode) (index : ℕ) : CompilerM Unit := emit op (Int64.ofNat index)

/-- A jump whose target is not known yet. -/
def emitJump (op : OpCode) : CompilerM ℕ := emitPc op (-1)

def pc : CompilerM ℕ := do return (← get).function.code.length

def patch (instruction target : ℕ) : CompilerM Unit := do
  let c ← get
  match c.function.code[instruction]? with
  | none => throw "instruction < function_.code.size()"
  | some old =>
    require (target ≤ Int64.maxValue.toNatClampNeg) "target <= numeric_limits<int64_t>::max()"
    set { c with function := { c.function with
      code := c.function.code.set instruction { old with operand := Int64.ofNat target } } }

def patchAll (instructions : List ℕ) (target : ℕ) : CompilerM Unit :=
  instructions.forM fun instruction => patch instruction target

def allocateTempLocal : CompilerM ℕ := do
  let c ← get
  set { c with function := { c.function with localCount := c.function.localCount + 1 } }
  return c.function.localCount

/-! ## Small sequences -/

def compileBoolLiteral (value : Bool) : CompilerM Unit := do
  emit .constantI64 (if value then 0 else 1)
  emit .constantI64 (if value then 1 else 0)
  emit .lessI64

def invertBoolOnStack : CompilerM Unit := do
  let jumpToTrue ← emitJump .jumpIfFalse
  compileBoolLiteral false
  let jumpToEnd ← emitJump .jump
  patch jumpToTrue (← pc)
  compileBoolLiteral true
  patch jumpToEnd (← pc)

def emitIncrementLocal (index : ℕ) : CompilerM Unit := do
  emitIndex .loadLocal index
  emit .constantI64 1
  emit .addI64
  emitIndex .storeLocal index

def emitGuardedVariantGet (layout caseIndex fieldIndex : ℕ) : CompilerM Unit := do
  require ((← get).activeVariantCase = some (layout, caseIndex))
    "VariantGet must be dominated by its active match-case guard"
  emit .variantGet (Int64.ofNat layout) (Int64.ofNat caseIndex) (Int64.ofNat fieldIndex)

/-! ## Arrays and maps -/

section Parts

variable (expression : Expr) (parts : ExprParts (CompilerM Unit) Unit)

def compileBoolAsScalarStorage (value : CompilerM Unit) : CompilerM Unit := do
  value
  let jumpToFalse ← emitJump .jumpIfFalse
  emit .constantI64 0
  let jumpToEnd ← emitJump .jump
  patch jumpToFalse (← pc)
  emit .constantI64 1
  patch jumpToEnd (← pc)

def compileExprAsArrayStorage (value : CompilerM Unit) (elementType : TypeSpec) :
    CompilerM Unit :=
  if elementType.kind = .bool then compileBoolAsScalarStorage value else value

def compileArraySized : CompilerM Unit := do
  deref parts.left
  compileExprAsArrayStorage (deref parts.right) expression.arrayElementType
  emit (if isScalarArrayElementType expression.arrayElementType then .allocArray
    else .allocRefArray)

/-- The loop of `compile_array_literal` over the elements after the first one. -/
def compileArrayElements (temp : ℕ) (elementType : TypeSpec) :
    ℕ → List (CompilerM Unit) → CompilerM Unit
  | _, [] => pure ()
  | index, element :: elements => do
    emitIndex .loadLocal temp
    emit .constantI64 (Int64.ofNat index)
    compileExprAsArrayStorage element elementType
    emit (if isScalarArrayElementType elementType then .arraySet else .refArraySet)
    compileArrayElements temp elementType (index + 1) elements

def compileArrayLiteral : CompilerM Unit := do
  match parts.arguments, expression.inferredType.element with
  | [], _ => throw "type checker rejects empty array literals before codegen"
  | _, none => throw "expression.inferred_type.element != nullptr"
  | first :: rest, some elementType =>
    require (expression.inferredType.kind = .array)
      "expression.inferred_type.kind == TypeSpec::Kind::Array"
    emit .constantI64 (Int64.ofNat parts.arguments.length)
    compileExprAsArrayStorage first elementType
    emit (if isScalarArrayElementType elementType then .allocArray else .allocRefArray)
    if rest.isEmpty then return
    let temp ← allocateTempLocal
    emitIndex .storeLocal temp
    compileArrayElements temp elementType 1 rest
    emitIndex .loadLocal temp

/-- An array access, which turns the stored form of a `bool` back into one. -/
def emitElementLoad (elementType : TypeSpec) : CompilerM Unit := do
  emit (if isScalarArrayElementType elementType then .arrayGet else .refArrayGet)
  if elementType.kind = .bool then
    emit .constantI64 1
    emit .lessI64

/-- The kind of the receiver's type. -/
def Expr.receiverKind : Option TypeSpec.Kind :=
  expression.receiver.map fun receiver => receiver.inferredType.kind

def compileArrayIndex : CompilerM Unit := do
  deref parts.receiver
  deref parts.left
  if expression.receiverKind = some .str then emit .strIndex
  else if expression.receiverKind = some .map then emit .mapGet
  else
    require (expression.receiverKind = some .array)
      "expression.receiver->inferred_type.kind == TypeSpec::Kind::Array"
    match expression.receiver.bind (·.inferredType.element) with
    | none => throw "expression.receiver->inferred_type.element != nullptr"
    | some elementType => emitElementLoad elementType

/-- The instruction for the length of a value. -/
def lengthOp : Option TypeSpec.Kind → OpCode
  | some .str => .strLen
  | some .map => .mapLen
  | some .builder => .builderLen
  | _ => .arrayLen

def compileMapEmpty : CompilerM Unit := do
  require (isMapKeyKind expression.mapKeyType.kind)
    "compile boundary must enforce the map key restriction"
  let key ← liftExcept (signatureValueFromType expression.mapKeyType)
  let value ← liftExcept (signatureValueFromType expression.mapValueType)
  let c ← get
  let layout : MapLayout := {
    keyType := key
    valueType := value
    keyIsRef := signatureValueIsReference key
    valueIsRef := signatureValueIsReference value }
  set { c with tables := { c.tables with mapLayouts := c.tables.mapLayouts ++ [layout] } }
  emitIndex .allocMap c.tables.mapLayouts.length

def compileEphemeron : CompilerM Unit := do
  deref parts.left
  deref parts.right
  match expression.inferredType.key, expression.inferredType.value with
  | some keyType, some valueType =>
    require (expression.inferredType.kind = .ephemeron)
      "expression.inferred_type.has_ephemeron_entries()"
    let key ← liftExcept (signatureValueFromType keyType)
    let value ← liftExcept (signatureValueFromType valueType)
    let c ← get
    let layout : EphemeronLayout := {
      keyType := key
      valueType := value
      valueIsRef := signatureValueIsReference value }
    set { c with tables := { c.tables with
      ephemeronLayouts := c.tables.ephemeronLayouts ++ [layout] } }
    emitIndex .allocEphemeron c.tables.ephemeronLayouts.length
  | _, _ => throw "expression.inferred_type.has_ephemeron_entries()"

/-! ## Searches and comparisons -/

def emitStringSearchOperands (receiver needle receiverLength needleLength index : ℕ) :
    CompilerM Unit := do
  require (parts.arguments.length = 1) "type-checked string search must have one argument"
  deref parts.receiver
  emitIndex .storeLocal receiver
  deref parts.arguments.head?
  emitIndex .storeLocal needle
  emitIndex .loadLocal receiver
  emit .strLen
  emitIndex .storeLocal receiverLength
  emitIndex .loadLocal needle
  emit .strLen
  emitIndex .storeLocal needleLength
  emit .constantI64 0
  emitIndex .storeLocal index

def emitCandidateSubstring (receiver needle needleLength index : ℕ) : CompilerM Unit := do
  emitIndex .loadLocal receiver
  emitIndex .loadLocal index
  emitIndex .loadLocal index
  emitIndex .loadLocal needleLength
  emit .addI64
  emit .strSub
  emitIndex .loadLocal needle
  emit .strEq

def compileContainsOrIndexOf (receiver needle receiverLength needleLength index : ℕ) :
    CompilerM Unit := do
  let header ← pc
  emitIndex .loadLocal receiverLength
  emitIndex .loadLocal index
  emitIndex .loadLocal needleLength
  emit .addI64
  emit .lessI64
  let candidate ← emitJump .jumpIfFalse
  if expression.kind = .strIndexOf then emit .constantI64 (-1) else compileBoolLiteral false
  let absentFinish ← emitJump .jump
  patch candidate (← pc)
  emitCandidateSubstring receiver needle needleLength index
  let noMatch ← emitJump .jumpIfFalse
  if expression.kind = .strIndexOf then emitIndex .loadLocal index else compileBoolLiteral true
  let matchFinish ← emitJump .jump
  patch noMatch (← pc)
  emitIncrementLocal index
  emitIndex .jump header
  let finish ← pc
  patch absentFinish finish
  patch matchFinish finish

def compileStartsWith (receiver needle receiverLength needleLength index : ℕ) :
    CompilerM Unit := do
  emitIndex .loadLocal receiverLength
  emitIndex .loadLocal needleLength
  emit .lessI64
  let candidate ← emitJump .jumpIfFalse
  compileBoolLiteral false
  let finish ← emitJump .jump
  patch candidate (← pc)
  emitCandidateSubstring receiver needle needleLength index
  patch finish (← pc)

def compileEndsWith (receiver needle receiverLength needleLength index : ℕ) :
    CompilerM Unit := do
  emitIndex .loadLocal receiverLength
  emitIndex .loadLocal needleLength
  emit .lessI64
  let search ← emitJump .jumpIfFalse
  compileBoolLiteral false
  let tooLongFinish ← emitJump .jump
  patch search (← pc)
  let header ← pc
  emitIndex .loadLocal index
  emitIndex .loadLocal needleLength
  emit .addI64
  emitIndex .loadLocal receiverLength
  emit .lessI64
  let candidate ← emitJump .jumpIfFalse
  emitIncrementLocal index
  emitIndex .jump header
  patch candidate (← pc)
  emitCandidateSubstring receiver needle needleLength index
  patch tooLongFinish (← pc)

def compileStringSearch : CompilerM Unit := do
  let receiver ← allocateTempLocal
  let needle ← allocateTempLocal
  let receiverLength ← allocateTempLocal
  let needleLength ← allocateTempLocal
  let index ← allocateTempLocal
  emitStringSearchOperands parts receiver needle receiverLength needleLength index
  match expression.kind with
  | .strContains | .strIndexOf =>
    compileContainsOrIndexOf expression receiver needle receiverLength needleLength index
  | .strStartsWith => compileStartsWith receiver needle receiverLength needleLength index
  | .strEndsWith => compileEndsWith receiver needle receiverLength needleLength index
  | _ => throw "expected string search expression kind"

def compileMinMax : CompilerM Unit := do
  require (parts.arguments.length = 2) "type-checked min/max must have exactly two arguments"
  let left ← allocateTempLocal
  let right ← allocateTempLocal
  deref parts.arguments[0]?
  emitIndex .storeLocal left
  deref parts.arguments[1]?
  emitIndex .storeLocal right
  emitIndex .loadLocal left
  emitIndex .loadLocal right
  emit .lessI64
  let selectFalse ← emitJump .jumpIfFalse
  emitIndex .loadLocal (if expression.kind = .min then left else right)
  let finish ← emitJump .jump
  patch selectFalse (← pc)
  emitIndex .loadLocal (if expression.kind = .min then right else left)
  patch finish (← pc)

/-- The instructions of an operator, behind its operands. -/
def emitOperator : CompilerM Unit := do
  let isStr := expression.left.any fun left => left.inferredType.kind = .str
  if expression.binaryOp = byte '+' then emit (if isStr then .strConcat else .addI64)
  else if expression.binaryOp = byte '<' then emit (if isStr then .strLt else .lessI64)
  else if expression.binaryOp = byte '>' || expression.binaryOp = byte 'L' ||
      expression.binaryOp = byte 'G' then
    emit .strLt
    if expression.binaryOp = byte 'L' || expression.binaryOp = byte 'G' then invertBoolOnStack
  else
    emit .strEq
    if expression.binaryOp = byte '!' then invertBoolOnStack

def compileBinary : CompilerM Unit := do
  if expression.binaryOp = byte '>' || expression.binaryOp = byte 'L' then
    let left ← allocateTempLocal
    let right ← allocateTempLocal
    deref parts.left
    emitIndex .storeLocal left
    deref parts.right
    emitIndex .storeLocal right
    emitIndex .loadLocal right
    emitIndex .loadLocal left
  else
    deref parts.left
    deref parts.right
  atPosition expression.operatorPosition (emitOperator expression)

/-! ## Expressions -/

def compileVariable : CompilerM Unit :=
  if expression.isCapture then emitIndex .loadCapture expression.captureIndex
  else if expression.isFunctionReference then
    emitIndex .allocClosure expression.closureLayoutIndex
  else emitIndex .loadLocal expression.localIndex

def compileLambda : CompilerM Unit := do
  match expression.lambda with
  | none => throw "type-checked lambda must carry body metadata"
  | some lambda =>
    lambda.captures.forM fun capture =>
      emitIndex (if capture.sourceIsCapture then .loadCapture else .loadLocal) capture.sourceIndex
    emitIndex .allocClosure lambda.closureLayoutIndex

def emitFieldLoad (name : String) : CompilerM Unit :=
  emit (if name = "left" then .getLeft else .getRight)

def compileField : CompilerM Unit := do
  deref parts.receiver
  if expression.receiverKind = some .record then
    emit .recordGet (Int64.ofNat expression.recordLayoutIndex)
      (Int64.ofNat expression.recordFieldIndex)
  else if expression.name = "len" then emit (lengthOp expression.receiverKind)
  else emitFieldLoad expression.name

def compileCall : CompilerM Unit := do
  parts.arguments.forM id
  if expression.directCall then emitIndex .call expression.calleeIndex
  else
    deref parts.receiver
    emit .callClosure

def compileStringLiteral : CompilerM Unit := do
  emitIndex .pushStr (← get).tables.stringConstants.length
  modify fun c => { c with tables := { c.tables with
    stringConstants := c.tables.stringConstants ++ [bytesOf expression.stringValue] } }

/-- A conversion or a test of the receiver. -/
def compileUnary (op : OpCode) : CompilerM Unit := do
  deref parts.receiver
  emit op

def compileExpr : CompilerM Unit := atPosition expression.position do
  match expression.kind with
  | .intLiteral => emit .constantI64 expression.intValue
  | .boolLiteral => compileBoolLiteral expression.boolValue
  | .stringLiteral => compileStringLiteral expression
  | .nilLiteral => emit .nil
  | .builderConstruct =>
    require parts.arguments.isEmpty "type-checked builder constructor must have no arguments"
    emit .allocBuilder
  | .variable => compileVariable expression
  | .lambda => compileLambda expression
  | .pairLiteral =>
    deref parts.left
    deref parts.right
    emit .allocPair
  | .recordLiteral =>
    parts.arguments.forM id
    emitIndex .allocRecord expression.recordLayoutIndex
  | .variantLiteral =>
    parts.arguments.forM id
    emit .allocVariant (Int64.ofNat expression.variantLayoutIndex)
      (Int64.ofNat expression.variantCaseIndex)
  | .arrayLiteral => compileArrayLiteral expression parts
  | .arraySized => compileArraySized expression parts
  | .arrayIndex => compileArrayIndex expression parts
  | .arrayLen => compileUnary parts (lengthOp expression.receiverKind)
  | .strSub =>
    require (parts.arguments.length = 2) "type-checked sub must have exactly two arguments"
    deref parts.receiver
    deref parts.arguments[0]?
    deref parts.arguments[1]?
    emit .strSub
  | .strContains | .strIndexOf | .strStartsWith | .strEndsWith =>
    compileStringSearch expression parts
  | .abs =>
    require (parts.arguments.length = 1) "type-checked abs must have exactly one argument"
    deref parts.arguments.head?
    emit .i64Abs
  | .min | .max => compileMinMax expression parts
  | .binary => compileBinary expression parts
  | .field => compileField expression parts
  | .call => compileCall expression parts
  | .isNil => compileUnary parts .isNil
  | .mapEmpty => compileMapEmpty expression
  | .mapHas =>
    deref parts.receiver
    deref parts.left
    emit .mapHas
  | .weakConstruct => compileUnary parts .allocWeak
  | .weakGet => compileUnary parts .weakGet
  | .ephemeronConstruct => compileEphemeron expression parts
  | .ephemeronKey => compileUnary parts .ephemeronKey
  | .ephemeronValue => compileUnary parts .ephemeronValue
  | .builderToStr =>
    require parts.arguments.isEmpty "type-checked builder to_str must have no arguments"
    compileUnary parts .builderToStr
  | .toStr =>
    compileUnary parts (if expression.receiverKind = some .bool then .boolToStr else .i64ToStr)
  | .toI64 => compileUnary parts .strToI64
  | .intern => compileUnary parts .strIntern

end Parts
/-! ## Statements -/

def compileBlock : List (CompilerM Bool) → CompilerM Bool
  | [] => return true
  | statement :: statements => do
    if ← statement then compileBlock statements else return false

/-- The loop that a `break` or `continue` with this label belongs to. -/
def selectLoop (contexts : List LoopPatchContext) (label : String) : Option ℕ :=
  if label.isEmpty then if contexts.isEmpty then none else some 0
  else contexts.findIdx? fun context => context.label = label

/-- Compiles a body inside a loop; what the loop has to patch comes back with it. -/
def compileLoopBody (label : String) (body : List (CompilerM Bool)) :
    CompilerM (Bool × LoopPatchContext) := do
  modify fun c => { c with loopContexts := { label := label } :: c.loopContexts }
  let falls ← compileBlock body
  match (← get).loopContexts with
  | [] => throw "loop_contexts_ is not empty"
  | loop :: contexts =>
    modify fun c => { c with loopContexts := contexts }
    return (falls, loop)

/-- `condition_is_true_literal`. -/
def Statement.conditionIsTrueLiteral (statement : Statement) : Bool :=
  statement.condition.any fun condition => condition.kind = .boolLiteral && condition.boolValue

section Statements

variable (statement : Statement) (parts : StatementParts (CompilerM Unit) (CompilerM Bool))
  (valueArguments : List (CompilerM Unit))

def compileLoopControl : CompilerM Unit := do
  match selectLoop (← get).loopContexts statement.loopControlLabel with
  | none => throw "type checker must resolve labeled loop control"
  | some selected =>
    let jump ← emitJump .jump
    modify fun c => { c with loopContexts := c.loopContexts.modify selected fun context =>
      if statement.kind = .break then { context with breaks := context.breaks ++ [jump] }
      else { context with continues := context.continues ++ [jump] } }

/-- One turn of `compile_lvalue_receiver`. -/
def compileLValueStep (step : LValueStep) (index : Option (CompilerM Unit)) :
    CompilerM Unit := do
  match step.kind with
  | .field =>
    if step.receiverType.kind = .record then
      emit .recordGet (Int64.ofNat step.recordLayoutIndex) (Int64.ofNat step.recordFieldIndex)
    else emitFieldLoad step.name
  | .index =>
    deref index
    if step.receiverType.kind = .map then emit .mapGet
    else emit (if isRefArrayType step.receiverType then .refArrayGet else .arrayGet)

def compileLValueReceiver : CompilerM Unit := do
  emitIndex .loadLocal statement.target.localIndex
  parts.steps.dropLast.forM fun (step, index) => compileLValueStep step index

def compileAssignment : CompilerM Unit := do
  let target := statement.target
  match parts.steps.getLast? with
  | none =>
    deref parts.value
    atPosition target.basePosition (emitIndex .storeLocal target.localIndex)
  | some (finalStep, index) =>
    compileLValueReceiver statement parts
    match finalStep.kind with
    | .index =>
      deref index
      if target.receiverType.kind = .map then
        deref parts.value
        atPosition finalStep.position (emit .mapSet)
      else
        compileExprAsArrayStorage (deref parts.value) target.elementType
        atPosition finalStep.position
          (emit (if isRefArrayType target.receiverType then .refArraySet else .arraySet))
    | .field =>
      deref parts.value
      atPosition finalStep.position <|
        if finalStep.receiverType.kind = .record then
          emit .recordSet (Int64.ofNat finalStep.recordLayoutIndex)
            (Int64.ofNat finalStep.recordFieldIndex)
        else emit (if finalStep.name = "left" then .setLeft else .setRight)

/-- Emits a jump behind code that falls through. -/
def emitJumpIf (falls : Bool) : CompilerM (Option ℕ) :=
  if falls then some <$> emitJump .jump else return none

def compileIf : CompilerM Bool := do
  deref parts.condition
  let jumpToElse ← emitJump .jumpIfFalse
  let thenFalls ← compileBlock parts.thenBranch
  let jumpToEnd ← emitJumpIf thenFalls
  patch jumpToElse (← pc)
  let elseFalls ← compileBlock parts.elseBranch
  patchAll jumpToEnd.toList (← pc)
  return thenFalls || elseFalls

/-- The arms in the order of their cases. Of two arms for one case the later one stays, and then
another case has none. -/
def orderArms {α : Type} (arms : List (MatchArm × α)) : Option (List (MatchArm × α)) :=
  if arms.all fun arm => arm.1.caseIndex < arms.length then
    (List.range arms.length).mapM fun caseIndex =>
      arms.reverse.find? fun arm => arm.1.caseIndex = caseIndex
  else none

/-- Loads the fields of a case into the bindings of its arm. -/
def compileBindings (layout subject caseIndex : ℕ) (bindings : List MatchBinding) :
    CompilerM Unit :=
  bindings.zipIdx.forM fun (binding, fieldIndex) => do
    emitIndex .loadLocal subject
    emitGuardedVariantGet layout caseIndex fieldIndex
    emitIndex .storeLocal binding.localIndex

/-- The test for a case, which the last one goes without. -/
def emitCaseTest (tag caseIndex : ℕ) (isLast : Bool) : CompilerM (Option ℕ) := do
  if isLast then return none
  emitIndex .loadLocal tag
  emit .constantI64 (Int64.ofNat (caseIndex + 1))
  emit .lessI64
  some <$> emitJump .jumpIfFalse

/-- The loop of `compile_match` over the cases: whether an arm falls through, and the jumps to
the end. -/
def compileArms (layout subject tag : ℕ) :
    ℕ → List (MatchArm × List (CompilerM Bool)) → CompilerM (Bool × List ℕ)
  | _, [] => return (false, [])
  | caseIndex, (arm, body) :: arms => do
    let nextCase ← emitCaseTest tag caseIndex arms.isEmpty
    let enclosing := (← get).activeVariantCase
    modify fun c => { c with activeVariantCase := some (layout, caseIndex) }
    compileBindings layout subject caseIndex arm.bindings
    let falls ← compileBlock body
    modify fun c => { c with activeVariantCase := enclosing }
    let endJump ← emitJumpIf (falls && !arms.isEmpty)
    patchAll nextCase.toList (← pc)
    let (anyFalls, endJumps) ← compileArms layout subject tag (caseIndex + 1) arms
    return (falls || anyFalls, endJump.toList ++ endJumps)

def compileMatch : CompilerM Bool := do
  let subject ← allocateTempLocal
  let tag ← allocateTempLocal
  deref parts.condition
  emitIndex .storeLocal subject
  emitIndex .loadLocal subject
  emit .variantTag
  emitIndex .storeLocal tag
  match orderArms parts.matchArms with
  | none => throw "type checker guarantees exhaustive unique match arms"
  | some arms =>
    let (anyFalls, endJumps) ← compileArms statement.matchVariantLayoutIndex subject tag 0 arms
    patchAll endJumps (← pc)
    return anyFalls

def addHandler : CompilerM ℕ := do
  let c ← get
  let handler : ExceptionHandler := { tryBegin := 0, tryEnd := 0, target := 0, variantLayout := 0 }
  set { c with function := { c.function with
    exceptionHandlers := c.function.exceptionHandlers ++ [handler] } }
  return c.function.exceptionHandlers.length

def compileTryCatch : CompilerM Bool := do
  let handlerIndex ← addHandler
  let tryBegin ← emitPc .tryBegin (Int64.ofNat handlerIndex)
  let tryFalls ← compileBlock parts.body
  let tryEnd ← emitPc .tryEnd (Int64.ofNat handlerIndex)
  let skip ← emitJumpIf tryFalls
  let target ← pc
  emitIndex .storeLocal statement.catchLocalIndex
  let catchFalls ← compileBlock parts.catchBody
  patchAll skip.toList (← pc)
  match statement.catchType.variantLayoutIndex with
  | none => throw "statement.catch_type.variant_layout_index"
  | some variantLayout =>
    let handler : ExceptionHandler :=
      { tryBegin := tryBegin, tryEnd := tryEnd, target := target, variantLayout := variantLayout }
    modify fun c => { c with function := { c.function with
      exceptionHandlers := c.function.exceptionHandlers.set handlerIndex handler } }
    return tryFalls || catchFalls

def compileWhile : CompilerM Bool := do
  let header ← pc
  let jumpToExit ←
    if statement.conditionIsTrueLiteral then pure none
    else do
      deref parts.condition
      some <$> emitJump .jumpIfFalse
  let (bodyFalls, loop) ← compileLoopBody statement.loopLabel parts.body
  patchAll loop.continues header
  if bodyFalls then emitIndex .jump header
  let exit ← pc
  patchAll jumpToExit.toList exit
  patchAll loop.breaks exit
  return !statement.conditionIsTrueLiteral || !loop.breaks.isEmpty

/-- The body and the end of a loop over `index`, behind its test. -/
def compileCountedBody (index header jumpToExit : ℕ) : CompilerM Unit := do
  let (bodyFalls, loop) ← compileLoopBody statement.loopLabel parts.body
  patchAll loop.continues (← pc)
  if bodyFalls || !loop.continues.isEmpty then
    emitIncrementLocal index
    emitIndex .jump header
  let exit ← pc
  patch jumpToExit exit
  patchAll loop.breaks exit

/-- `statement.loop_local_indices[position]`. -/
def loopLocal (position : ℕ) : CompilerM ℕ :=
  match statement.loopLocalIndices[position]? with
  | some localIndex => return localIndex
  | none => throw "type-checked for-in must own loop locals"

/-- Tests the counter of a loop against its bound. -/
def emitCounterTest (index bound : ℕ) : CompilerM ℕ := do
  emitIndex .loadLocal index
  emitIndex .loadLocal bound
  emit .lessI64
  emitJump .jumpIfFalse

def compileRange (index bound : ℕ) : CompilerM Unit := do
  deref parts.iterable
  emitIndex .storeLocal index
  deref parts.rangeUpper
  emitIndex .storeLocal bound
  let header ← pc
  let jumpToExit ← emitCounterTest index bound
  emitIndex .loadLocal index
  emitIndex .storeLocal (← loopLocal statement 0)
  compileCountedBody statement parts index header jumpToExit

/-- The kind of the type of the container. -/
def Statement.iterableKind : Option TypeSpec.Kind :=
  statement.iterable.map fun iterable => iterable.inferredType.kind

/-- The trap of a loop over a map that has grown. -/
def emitGrowthTrap (container bound : ℕ) : CompilerM Unit := do
  emitIndex .loadLocal bound
  emitIndex .loadLocal container
  emit .mapLen
  emit .lessI64
  let unchanged ← emitJump .jumpIfFalse
  emitIndex .loadLocal container
  emit .constantI64 (-1)
  emit .mapKeyAt
  emitIndex .storeLocal (← loopLocal statement 0)
  patch unchanged (← pc)

/-- Loads what the container holds at the counter into the locals of the loop. -/
def emitElementLocals (container index : ℕ) : CompilerM Unit := do
  emitIndex .loadLocal container
  emitIndex .loadLocal index
  if statement.iterableKind = some .map then
    emit .mapKeyAt
    emitIndex .storeLocal (← loopLocal statement 0)
    emitIndex .loadLocal container
    emitIndex .loadLocal index
    emit .mapValueAt
    emitIndex .storeLocal (← loopLocal statement 1)
  else
    match statement.iterable.bind (·.inferredType.element) with
    | none => throw "null pointer"
    | some elementType =>
      emitElementLoad elementType
      emitIndex .storeLocal (← loopLocal statement 0)

def compileContainerLoop (index bound : ℕ) : CompilerM Unit := do
  let container ← allocateTempLocal
  deref parts.iterable
  emitIndex .storeLocal container
  emitIndex .loadLocal container
  emit (if statement.iterableKind = some .map then .mapLen else .arrayLen)
  emitIndex .storeLocal bound
  emit .constantI64 0
  emitIndex .storeLocal index
  let header ← pc
  if statement.iterableKind = some .map then emitGrowthTrap statement container bound
  let jumpToExit ← emitCounterTest index bound
  emitElementLocals statement container index
  compileCountedBody statement parts index header jumpToExit

def compileForIn : CompilerM Unit := do
  require (!statement.loopLocalIndices.isEmpty) "type-checked for-in must own loop locals"
  let index ← allocateTempLocal
  let bound ← allocateTempLocal
  if statement.rangeUpper.isSome then compileRange statement parts index bound
  else compileContainerLoop statement parts index bound

def compileTailCall : CompilerM Unit := do
  match statement.value with
  | none => throw "type checker must restrict TailCall to named functions"
  | some value =>
    require (value.kind = .call && value.directCall)
      "type checker must restrict TailCall to named functions"
    valueArguments.forM id
    emitIndex .tailCall value.calleeIndex

/-- The instruction that turns a value into the string a builder takes. -/
def appendConversion : Option TypeSpec.Kind → CompilerM Unit
  | some .int64 => emit .i64ToStr
  | some .bool => emit .boolToStr
  | _ => pure ()

def compileBuilderAppend : CompilerM Unit := do
  require (parts.arguments.length = 1) "type-checked builder append must have one argument"
  deref parts.initializer
  deref parts.arguments.head?
  appendConversion (statement.arguments.head?.map fun argument => argument.inferredType.kind)
  emit .builderAppend

/-- `valueArguments` is the code for the arguments of the call that the value is. -/
def compileStatement : CompilerM Bool := atPosition statement.position do
  match statement.kind with
  | .let =>
    deref parts.initializer
    emitIndex .storeLocal statement.localIndex
    return true
  | .assign => do compileAssignment statement parts; return true
  | .if => compileIf parts
  | .while => compileWhile statement parts
  | .forIn => do compileForIn statement parts; return true
  | .match => compileMatch statement parts
  | .throw =>
    deref parts.value
    emit .throw
    return false
  | .tailCall => do compileTailCall statement valueArguments; return false
  | .tryCatch => compileTryCatch statement parts
  | .break | .continue => do compileLoopControl statement; return false
  | .print =>
    deref parts.value
    emit .print
    return true
  | .ephemeronSet =>
    deref parts.initializer
    deref parts.value
    emit .ephemeronSetValue
    return true
  | .builderAppend => do compileBuilderAppend statement parts; return true
  | .builderClear =>
    require parts.arguments.isEmpty "type-checked builder clear must have no arguments"
    deref parts.initializer
    emit .builderClear
    return true

end Statements

/-- The code of an expression, and that of its arguments alone. -/
structure ExprCode where
  code : CompilerM Unit
  arguments : List (CompilerM Unit)

/-- The compiler as a pass over the tree. It does not go into the bodies of lambdas. -/
def compilation : TreeAlgebra ExprCode Unit (CompilerM Bool) where
  expr expression parts :=
    { code := compileExpr expression (parts.map ExprCode.code)
      arguments := parts.arguments.map ExprCode.code }
  lambda _ _ := ()
  statement statement parts :=
    compileStatement statement (parts.map ExprCode.code)
      (parts.value.elim [] ExprCode.arguments)

/-! ## Functions -/

/-- `Compiler::compile`. -/
def compileBody (statements : List (CompilerM Bool)) (result : Option (CompilerM Unit))
    (resultPosition : SourcePosition) : CompilerM Unit := do
  if ← compileBlock statements then
    deref result
    atPosition resultPosition (emit .ret)

/-- Compiles a function, given what is known of it before its code. -/
def compileFunction (tables : Tables) (function : Function) (statements : List Statement)
    (result : Option Expr) : Except String (Function × Tables) :=
  let body := compileBody (statements.map (Statement.fold compilation))
    (result.map fun result => (result.fold compilation).code)
    ((result.map Expr.position).getD {})
  match body { function := function, tables := tables } with
  | .ok _ c => .ok (c.function, c.tables)
  | .error e _ => .error e

def signatureFromTypes (parameters : List Parameter) (returnType : TypeSpec) :
    Except String FunctionSignature := do
  let kinds ← parameters.mapM fun parameter => bytecodeKind parameter.type
  let types ← parameters.mapM fun parameter => signatureValueFromType parameter.type
  return {
    parameters := kinds
    parameterTypes := types
    returnType := ← bytecodeKind returnType
    returnTypeDetail := some (← signatureValueFromType returnType) }

def closureFunctionTypeFromTypes (parameters : List Parameter) (returnType : TypeSpec) :
    Except String SignatureValue := do
  let types ← parameters.mapM fun parameter => signatureValueFromType parameter.type
  return functionSignature types (← signatureValueFromType returnType)

def compileDeclaration (tables : Tables) (declaration : FunctionDecl) :
    Except String (Function × Tables) := do
  let signature ← signatureFromTypes declaration.parameters declaration.returnType
  compileFunction tables
    { signature := signature
      code := []
      localCount := declaration.localCount
      closureLayout := some declaration.closureLayoutIndex
      debugName := declaration.name }
    declaration.statements declaration.result

def compileLambdaFunction (tables : Tables) (lambda : LambdaExpr) :
    Except String (Function × Tables) := do
  let signature ← signatureFromTypes lambda.parameters lambda.returnType
  compileFunction tables
    { signature := signature
      code := []
      localCount := lambda.localCount
      closureLayout := some lambda.closureLayoutIndex
      debugName := "<lambda@" ++ toString lambda.position.line ++ ":" ++
        toString lambda.position.column ++ ">" }
    lambda.statements lambda.result

def compileEntry (tables : Tables) (program : Program) (resultType : TypeSpec) :
    Except String (Function × Tables) := do
  let signature : FunctionSignature := {
    returnType := ← bytecodeKind resultType
    returnTypeDetail := some (← signatureValueFromType resultType) }
  compileFunction tables
    { signature := signature
      code := []
      localCount := program.entryLocalCount
      debugName := "<entry>" }
    program.statements program.result

/-- Compiles one function after the other, with one set of tables. -/
def compileAll {α : Type} (compileOne : Tables → α → Except String (Function × Tables)) :
    Tables → List α → Except String (List Function × Tables)
  | tables, [] => .ok ([], tables)
  | tables, declaration :: declarations => do
    let (function, tables) ← compileOne tables declaration
    let (functions, tables) ← compileAll compileOne tables declarations
    return (function :: functions, tables)

/-! ## Modules -/

/-- The signature of a field, and whether it is a reference. -/
def fieldLayout (message : String) (type : TypeSpec) : Except String (SignatureValue × Bool) := do
  let signature ← signatureValueFromType type
  let isReference := type.kind != .int64 && type.kind != .bool
  if isReference = signatureValueIsReference signature then return (signature, isReference)
  else throw message

def recordLayout (layoutIndex : ℕ) (declaration : RecordDecl) : Except String RecordLayout := do
  if declaration.layoutIndex ≠ layoutIndex then
    throw "record layouts must preserve declaration order"
  let fields ← declaration.fields.mapM fun field =>
    fieldLayout "compile boundary record bitmap disagrees with type classification" field.type
  return {
    name := declaration.name
    fieldTypes := fields.map Prod.fst
    referenceMap := fields.map Prod.snd }

def variantLayout (layoutIndex : ℕ) (declaration : VariantDecl) :
    Except String VariantLayout := do
  if declaration.layoutIndex ≠ layoutIndex then
    throw "variant layouts must preserve declaration order"
  let cases ← declaration.cases.mapM fun case => do
    let fields ← case.fields.mapM
      (fieldLayout "compile boundary variant bitmap disagrees with type classification")
    return {
      name := case.name
      fieldTypes := fields.map Prod.fst
      referenceMap := fields.map Prod.snd }
  return { name := declaration.name, cases := cases }

def declarationClosureLayout (declaration : FunctionDecl) : Except String ClosureLayout := do
  return {
    functionIndex := declaration.functionIndex
    functionType := ← closureFunctionTypeFromTypes declaration.parameters declaration.returnType
    captureTypes := []
    captureMap := [] }

def lambdaClosureLayout (lambda : LambdaExpr) : Except String ClosureLayout := do
  let captureTypes ← lambda.captures.mapM fun capture => signatureValueFromType capture.type
  return {
    functionIndex := lambda.functionIndex
    functionType := ← closureFunctionTypeFromTypes lambda.parameters lambda.returnType
    captureTypes := captureTypes
    captureMap := captureTypes.map signatureValueIsReference }

/-- The lambdas of a tree, an inner one before the one around it. -/
def lambdaCollection : TreeAlgebra (List LambdaExpr) (List LambdaExpr) (List LambdaExpr) where
  expr _ parts :=
    parts.left.getD [] ++ parts.right.getD [] ++ parts.receiver.getD [] ++
      parts.arguments.flatten ++ parts.lambda.getD []
  lambda lambda parts := parts.statements.flatten ++ parts.result.getD [] ++ [lambda]
  statement _ parts :=
    parts.initializer.getD [] ++ parts.value.getD [] ++ parts.arguments.flatten ++
      parts.condition.getD [] ++ parts.iterable.getD [] ++ parts.rangeUpper.getD [] ++
      parts.steps.flatMap (fun step => step.2.getD []) ++ parts.thenBranch.flatten ++
      parts.elseBranch.flatten ++ parts.body.flatten ++
      parts.matchArms.flatMap (fun arm => arm.2.flatten) ++ parts.catchBody.flatten

/-- `collect_function_lambdas`. -/
def collectLambdas (statements : List Statement) (result : Option Expr) : List LambdaExpr :=
  statements.flatMap (Statement.fold lambdaCollection) ++
    (result.map (Expr.fold lambdaCollection)).getD []

/-- `recollect_concrete_lambdas` of `src/frontend/generics.cpp`, with which the checker ends: the
lambdas of the checked program. -/
def recollectConcreteLambdas (program : Program) : List LambdaExpr :=
  program.functions.flatMap (fun function => collectLambdas function.statements function.result) ++
    collectLambdas program.statements program.result

/-- `compile_checked_program`, up to the module it then audits and verifies. -/
def compileCheckedProgram (program : Program) (resultType : TypeSpec) :
    Except String Module := do
  let namedTypes ← program.types.mapM fun declaration => do
    return { name := declaration.name, body := ← signatureValueFromType declaration.body }
  let recordLayouts ← program.records.zipIdx.mapM fun (declaration, index) =>
    recordLayout index declaration
  let variantLayouts ← program.variants.zipIdx.mapM fun (declaration, index) =>
    variantLayout index declaration
  let functionLayouts ← program.functions.mapM declarationClosureLayout
  let lambdaLayouts ← program.lambdas.mapM lambdaClosureLayout
  let (functions, tables) ← compileAll compileDeclaration {} program.functions
  let (lambdas, tables) ← compileAll compileLambdaFunction tables program.lambdas
  let (entry, tables) ← compileEntry tables program resultType
  return {
    functions := entry :: (functions ++ lambdas)
    entryFunction := 0
    namedTypes := namedTypes
    stringConstants := tables.stringConstants
    closureLayouts := functionLayouts ++ lambdaLayouts
    mapLayouts := tables.mapLayouts
    recordLayouts := recordLayouts
    variantLayouts := variantLayouts
    ephemeronLayouts := tables.ephemeronLayouts }

end LanguageRuntime.Frontend
