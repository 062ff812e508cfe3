import LanguageRuntime.Bytecode.Abstract
import Mathlib.Data.Finset.Range

/-!
# The transfer function of the verifier

`transfer_instruction` of `src/bytecode.cpp`: the states an instruction leads to, or the
reason it is rejected. Whether a value conforms to a static type is the answer of
`value_conforms_to_expected`, which keys its assumptions by addresses; the transfer function
takes the answers as a parameter.
-/

namespace LanguageRuntime.Bytecode

/-- `VerifierReason`. -/
inductive VerifierReason where
  | moduleShapeMismatch
  | emptyFunction
  | signatureShapeMismatch
  | localCountMismatch
  | badStackMap
  | stackUnderflow
  | typeMismatch
  | poisonUse
  | uninitializedLocal
  | badLocalIndex
  | badJumpTarget
  | fallOffEnd
  | stackHeightMergeMismatch
  | unreachableCode
  | badPairFieldRead
  | badPairFieldWrite
  | badArrayOperation
  | badCallTarget
  | badCallArity
  | badCallArgKind
  | badReturnKind
  | badStringConstantIndex
  | badStringOperation
  | badClosureLayoutIndex
  | badClosureCaptureArity
  | badClosureCaptureType
  | callClosureOnNonFunction
  | badClosureCallArity
  | badClosureCallArgKind
  | loadCaptureOutOfRange
  | loadCaptureOutsideClosureBody
  | badMapLayoutIndex
  | invalidMapKeyType
  | mapOperationOnNonMap
  | mapKeyTypeMismatch
  | mapValueTypeMismatch
  | badWeakTargetType
  | weakOperationOnNonWeak
  | weakTargetMayBeNil
  | badMapPositionAccess
  | printRequiresStr
  | i64ToStrRequiresI64
  | strToI64RequiresStr
  | boolToStrRequiresBool
  | strSubRequiresStr
  | strSubRequiresI64Bounds
  | strLtRequiresStr
  | badRecordLayoutShape
  | badRecordLayoutIndex
  | badRecordFieldIndex
  | badRecordInitializerArity
  | badRecordInitializerType
  | recordOperationOnNonRecord
  | recordLayoutMismatch
  | recordReceiverMayBeNil
  | recordFieldTypeMismatch
  | badVariantLayoutShape
  | badVariantLayoutIndex
  | badVariantCaseIndex
  | badVariantFieldIndex
  | badVariantInitializerArity
  | badVariantInitializerType
  | variantOperationOnNonVariant
  | variantLayoutMismatch
  | variantReceiverMayBeNil
  | badExceptionHandler
  | throwRequiresVariant
  | badEphemeronLayoutIndex
  | badEphemeronKeyType
  | ephemeronOperationOnNonEphemeron
  | ephemeronValueTypeMismatch
  | tailCallInTryRegion
  | badTailCallTarget
  | tailCallReturnTypeMismatch
  | badTailCallArity
  | tailCallStackShapeMismatch
  | badTailCallArgKind
  | strInternRequiresStr
  | i64AbsRequiresI64
  | builderOperationOnNonBuilder
  | builderAppendRequiresStr
deriving DecidableEq, Repr

structure VerifierDiagnostic where
  functionIndex : ℕ
  pc : Option ℕ
  reason : VerifierReason
  message : String
deriving DecidableEq, Repr

/-- The instruction a transfer is about. -/
structure Point where
  function : Function
  functionIndex : ℕ
  pc : ℕ

/-- `function.code[pc]`. -/
def Point.instruction (point : Point) : Instruction :=
  point.function.code.getD point.pc { op := .ret }

/-- `instruction_message`. -/
def Point.message (point : Point) (detail : String) : String :=
  point.instruction.op.name ++ " at pc " ++ toString point.pc ++ ": " ++ detail

/-- `reject` at an instruction. -/
def Point.reject {α : Type} (point : Point) (reason : VerifierReason) (detail : String) :
    Except VerifierDiagnostic α :=
  .error ⟨point.functionIndex, some point.pc, reason, point.message detail⟩

/-- A transfer: it changes the state or rejects the instruction. -/
abbrev TransferM := StateT AbstractState (Except VerifierDiagnostic)

/-- The answers of `value_conforms_to_expected` with no assumption made yet. -/
abbrev Conformance := AbstractState → AbstractValue → AbstractValue → Bool

/-! ## Popping operands -/

def pushValue (value : AbstractValue) : TransferM Unit :=
  modify fun state => { state with stack := value :: state.stack }

/-- `pop_any_or_report`. -/
def popAny (point : Point) (underflowReason : VerifierReason) (context : String) :
    TransferM AbstractValue := do
  match (← get).stack with
  | [] => point.reject underflowReason (context ++ " requires a stack value")
  | value :: rest =>
    if isPoison value then point.reject .poisonUse (context ++ " consumed a poison value")
    else
      modify fun state => { state with stack := rest }
      return value

/-- `pop_expect_or_report`. -/
def popExpect (point : Point) (expected : AbstractKind)
    (underflowReason mismatchReason : VerifierReason) (context : String) :
    TransferM AbstractValue := do
  let actual ← popAny point underflowReason context
  if actual.kind ≠ expected then
    point.reject
      (if actual.kind = .maybeReference then .weakTargetMayBeNil else mismatchReason)
      (context ++ " expected " ++ expected.name ++ " but found " ++ actual.kind.name)
  else return actual

/-- `pop_reference_or_report`. -/
def popReference (point : Point) (underflowReason mismatchReason : VerifierReason)
    (context : String) : TransferM AbstractValue := do
  let actual ← popAny point underflowReason context
  if !isReferenceKind actual.kind || actual.kind == .maybeReference || actual.includesNil then
    point.reject mismatchReason
      (context ++ " expected a non-nil reference but found " ++ actual.kind.name)
  else return actual

/-- The loops that pop initializers, captures and arguments, the last one first, and check each
against its static type. -/
def popConforming (conforms : Conformance) (point : Point)
    (underflowReason mismatchReason : VerifierReason) (context mismatch : ℕ → String)
    (types : List SignatureValue) : TransferM Unit :=
  types.zipIdx.reverse.forM fun (type, index) => do
    let value ← popAny point underflowReason (context index)
    if !conforms (← get) value (valueFromSignature type) then
      point.reject mismatchReason (mismatch index)

/-! ## Fields and elements -/

/-- The sites of a set in ascending order, as a `std::set` is iterated. -/
def siteOrder (sites : Finset ℕ) : List ℕ := (List.range (sites.sup id + 1)).filter (· ∈ sites)

def Fields.get {α : Type} (fields : Fields α) (left : Bool) : α :=
  if left then fields.left else fields.right

def Fields.set {α : Type} (fields : Fields α) (left : Bool) (value : α) : Fields α :=
  if left then { fields with left := value } else { fields with right := value }

/-- What several sources of a field agree on: the fact found so far and one more. -/
def joinLoaded (loaded : Option AbstractValue) (field : AbstractValue) : AbstractValue :=
  match loaded with
  | none => field
  | some loaded => joinValues loaded field

/-- What the types of a receiver say of a field; no answer when its named type has no fields. -/
def declaredField (module : Module) (receiver : AbstractValue) (left : Bool) :
    Option (Option AbstractValue) :=
  let declared := receiver.signatureFields.map (·.get left)
  match receiver.signatureNamedType with
  | none => some declared
  | some named => do
    let type ← module.namedTypes[named]?
    let fields ← (valueFromSignature type.body).signatureFields
    return some (joinLoaded declared (fields.get left))

def loadPairField (module : Module) (state : AbstractState) (receiver : AbstractValue)
    (left : Bool) : Option AbstractValue :=
  if receiver.includesNil || receiver.includesOpaqueObject then none
  else do
    let declared ← declaredField module receiver left
    let loaded ← (siteOrder receiver.objectSites).foldlM (fun loaded site => do
      let fields ← state.fieldsBySite.getD site none
      return some (joinLoaded loaded (fields.get left))) declared
    loaded.filter (!isPoison ·)

def loadRefArrayElement (state : AbstractState) (receiver : AbstractValue) :
    Option AbstractValue := do
  let loaded ← (siteOrder receiver.refArraySites).foldlM (fun loaded site => do
    let element ← state.refArrayElementsBySite.getD site none
    return some (match loaded with
      | none => element
      | some loaded => joinRefArrayElementValues loaded element)) receiver.signatureArrayElement
  loaded.filter (!isPoison ·)

/-- Joins a value into the field fact of a site. -/
def updateSiteField (left : Bool) (value : AbstractValue) (state : AbstractState) (site : ℕ) :
    Option AbstractState := do
  let fields ← state.fieldsBySite.getD site none
  let field := (joinValueInto (fields.get left) value).1
  return { state with
    fieldsBySite := state.fieldsBySite.set site (some (fields.set left field)) }

def storePairField (conforms : Conformance) (module : Module) (state : AbstractState)
    (receiver : AbstractValue) (left : Bool) (value : AbstractValue) : Option AbstractState :=
  if receiver.includesNil then none
  else if receiver.includesOpaqueObject && receiver.signatureFields.isSome then none
  else do
    let expected ← declaredField module receiver left
    if expected.any fun expected => !conforms state value expected then none
    let state ← (siteOrder receiver.objectSites).foldlM (updateSiteField left value) state
    if receiver.signatureFields.isSome || receiver.signatureNamedType.isSome ||
        receiver.objectSites.Nonempty || receiver.includesOpaqueObject then some state
    else none

/-- Joins a value into the element fact of a site. -/
def updateSiteElement (value : AbstractValue) (state : AbstractState) (site : ℕ) :
    Option AbstractState := do
  let element ← state.refArrayElementsBySite.getD site none
  let joined := joinRefArrayElementValues element value
  if isPoison joined then none
  return { state with
    refArrayElementsBySite := state.refArrayElementsBySite.set site (some joined) }

def storeRefArrayElement (conforms : Conformance) (state : AbstractState)
    (receiver value : AbstractValue) : Option AbstractState := do
  if receiver.signatureArrayElement.any fun element => !conforms state value element then none
  let state ← (siteOrder receiver.refArraySites).foldlM (updateSiteElement value) state
  if receiver.signatureArrayElement.isSome || receiver.refArraySites.Nonempty then some state
  else none

/-- Replaces the state, or rejects the instruction when there is none. -/
def commitOrReject (point : Point) (reason : VerifierReason) (detail : String)
    (update : AbstractState → Option AbstractState) : TransferM Unit := do
  match update (← get) with
  | some state => set state
  | none => point.reject reason detail

/-- The entry an operand names in a table, or the instruction is rejected: `subject` is what the
message calls the operand, `bound` what it calls the size of the table. -/
def requireEntry {α : Type} (point : Point) (operand : Int64) (table : List α)
    (reason : VerifierReason) (subject bound : String) : TransferM (ℕ × α) :=
  match entryOperand operand table with
  | some entry => return entry
  | none =>
    point.reject reason
      (subject ++ " " ++ toString operand ++ " is outside " ++ bound ++ " " ++
        toString table.length)

/-! ## Straight-line instructions -/

/-- A receiver of the map operations. -/
def popMap (point : Point) (reason : VerifierReason) (context : String) :
    TransferM (SignatureValue × SignatureValue) := do
  let receiver ← popAny point .stackUnderflow context
  match receiver.kind, receiver.signatureMap with
  | .map, some signature =>
    match signature.hasMapEntries, signature.key, signature.value with
    | true, some key, some value => return (key, value)
    | _, _, _ => point.reject reason "receiver is not a typed map"
  | _, _ => point.reject reason "receiver is not a typed map"

/-- The check of a map operand against the static type the map gives it. -/
def requireConforming (conforms : Conformance) (point : Point) (value : AbstractValue)
    (type : SignatureValue) (reason : VerifierReason) (detail : String) : TransferM Unit := do
  if !conforms (← get) value (valueFromSignature type) then point.reject reason detail

def transferEphemeron (conforms : Conformance) (point : Point) : TransferM Unit := do
  let op := point.instruction.op
  let stored ← if op = .ephemeronSetValue then
      some <$> popAny point .stackUnderflow "ephemeron stored value"
    else pure none
  let receiver ← popAny point .stackUnderflow "ephemeron receiver"
  match receiver.kind, receiver.signatureMap with
  | .ephemeron, some signature =>
    match signature.hasEphemeronEntries, signature.key, signature.value with
    | true, some key, some value =>
      match stored with
      | some stored =>
        requireConforming conforms point stored value .ephemeronValueTypeMismatch
          "stored ephemeron value type mismatch"
      | none =>
        if op = .ephemeronKey then pushValue (maybeReferenceValue (valueFromSignature key))
        else
          let loaded := valueFromSignature value
          pushValue (if signatureValueIsReference value then maybeReferenceValue loaded else loaded)
    | _, _, _ =>
      point.reject .ephemeronOperationOnNonEphemeron "receiver is not an ephemeron"
  | _, _ => point.reject .ephemeronOperationOnNonEphemeron "receiver is not an ephemeron"

def transferRecordAccess (conforms : Conformance) (module : Module) (point : Point) :
    TransferM Unit := do
  let ins := point.instruction
  let (layoutIndex, layout) ← requireEntry point ins.operand module.recordLayouts
    .badRecordLayoutIndex "record layout" "layout count"
  let (_, type) ← requireEntry point ins.operand2 layout.fieldTypes .badRecordFieldIndex
    "record field" "field count"
  let stored ← if ins.op = .recordSet then
      some <$> popAny point .stackUnderflow "record stored value"
    else pure none
  let receiver ← popAny point .stackUnderflow "record receiver"
  if receiver.kind ≠ .record then
    point.reject .recordOperationOnNonRecord "receiver is not a typed record reference"
  else if receiver.includesNil then
    point.reject .recordReceiverMayBeNil "record receiver may be nil without refinement"
  else if receiver.signatureRecordLayout ≠ some layoutIndex then
    point.reject .recordLayoutMismatch "receiver nominal layout differs from opcode layout"
  else
    match stored with
    | some stored =>
      requireConforming conforms point stored type .recordFieldTypeMismatch
        "stored value violates record field type"
    | none => pushValue (valueFromSignature type)

/-- The receiver of `VariantTag` and `VariantGet`. -/
def popVariant (point : Point) : TransferM AbstractValue := do
  let receiver ← popAny point .stackUnderflow "variant receiver"
  if receiver.kind ≠ .variant then
    point.reject .variantOperationOnNonVariant "receiver is not a typed variant reference"
  else if receiver.includesNil then
    point.reject .variantReceiverMayBeNil "variant receiver may be nil without refinement"
  else return receiver

/-- The case a variant instruction names. -/
def variantCase (module : Module) (point : Point) : TransferM (ℕ × VariantCaseLayout) := do
  let ins := point.instruction
  let (layoutIndex, layout) ← requireEntry point ins.operand module.variantLayouts
    .badVariantLayoutIndex "variant layout" "layout count"
  let (_, caseLayout) ← requireEntry point ins.operand2 layout.cases .badVariantCaseIndex
    "variant case" "case count"
  return (layoutIndex, caseLayout)

/-- The capture-bearing check of a direct call. -/
def needsCaptures (module : Module) (callee : Function) : Bool :=
  match callee.closureLayout with
  | some layout => module.closureLayouts[layout]?.any fun layout => !layout.captureTypes.isEmpty
  | none => false

/-- The handler whose protected range holds `pc`, the innermost one; with a layout, among the
handlers of that layout. -/
def enclosingHandler (function : Function) (pc : ℕ) (layout : Option ℕ) :
    Option ExceptionHandler :=
  function.exceptionHandlers.foldl (fun selected handler =>
    if handler.tryBegin < pc ∧ pc < handler.tryEnd ∧
        (layout = none ∨ layout = some handler.variantLayout) ∧
        selected.all (fun selected => selected.tryBegin < handler.tryBegin) then
      some handler
    else selected) none

def transferCall (conforms : Conformance) (module : Module) (point : Point) : TransferM Unit := do
  let (_, callee) ← requireEntry point point.instruction.operand module.functions .badCallTarget
    "callee" "function count"
  if needsCaptures module callee then
    point.reject .badCallTarget "direct Call cannot target a capture-bearing closure body"
  popConforming conforms point .badCallArity .badCallArgKind
    (fun i => "argument " ++ toString i)
    (fun i => "argument " ++ toString i ++ " does not conform to callee parameter " ++
      (callee.signature.parameters.getD i .nil).name)
    (parameterSignatures callee.signature)
  pushValue (valueFromSignature (returnSignature callee.signature))

def transferCallClosure (conforms : Conformance) (point : Point) : TransferM Unit := do
  let callee ← popAny point .badClosureCallArity "closure callee"
  match callee.kind, callee.signatureFunction with
  | .function, some signature =>
    match signature.hasFunctionSignature, signature.functionReturn with
    | true, some result =>
      popConforming conforms point .badClosureCallArity .badClosureCallArgKind
        (fun i => "closure argument " ++ toString i)
        (fun i => "closure argument " ++ toString i ++ " does not conform to parameter type " ++
          (signature.functionParameters.getD i (signatureValue .nil)).kind.name)
        signature.functionParameters
      pushValue (valueFromSignature result)
    | _, _ =>
      point.reject .callClosureOnNonFunction "callee stack slot is not a structural function"
  | _, _ => point.reject .callClosureOnNonFunction "callee stack slot is not a structural function"

/-- The operands of an instruction that takes two of one kind. -/
def popTwo (point : Point) (kind : AbstractKind) (reason : VerifierReason)
    (right left : String) : TransferM Unit := do
  let _ ← popExpect point kind .stackUnderflow reason right
  let _ ← popExpect point kind .stackUnderflow reason left

/-- The instructions that fall through to the next one: what they do to the state. -/
def transferStraightLine (conforms : Conformance) (module : Module) (point : Point) :
    TransferM Unit := do
  let ins := point.instruction
  match ins.op with
  | .constantI64 => pushValue int64Value
  | .pushStr =>
    let _ ← requireEntry point ins.operand module.stringConstants .badStringConstantIndex
      "string constant operand" "pool size"
    pushValue strValue
  | .strLen =>
    let _ ← popExpect point .str .stackUnderflow .badStringOperation "string receiver"
    pushValue int64Value
  | .strEq =>
    popTwo point .str .badStringOperation "right string operand" "left string operand"
    pushValue boolValue
  | .strConcat =>
    popTwo point .str .badStringOperation "right string operand" "left string operand"
    pushValue strValue
  | .strIntern =>
    let _ ← popExpect point .str .stackUnderflow .strInternRequiresStr "string intern operand"
    pushValue strValue
  | .strSub =>
    popTwo point .int64 .strSubRequiresI64Bounds "substring high bound" "substring low bound"
    let _ ← popExpect point .str .stackUnderflow .strSubRequiresStr "substring receiver"
    pushValue strValue
  | .strLt =>
    popTwo point .str .strLtRequiresStr "right string operand" "left string operand"
    pushValue boolValue
  | .strIndex =>
    let _ ← popExpect point .int64 .stackUnderflow .badStringOperation "string index"
    let _ ← popExpect point .str .stackUnderflow .badStringOperation "string receiver"
    pushValue int64Value
  | .print =>
    let _ ← popExpect point .str .stackUnderflow .printRequiresStr "print operand"
  | .i64ToStr =>
    let _ ← popExpect point .int64 .stackUnderflow .i64ToStrRequiresI64 "i64-to-string operand"
    pushValue strValue
  | .strToI64 =>
    let _ ← popExpect point .str .stackUnderflow .strToI64RequiresStr "string-to-i64 operand"
    pushValue int64Value
  | .boolToStr =>
    let _ ← popExpect point .bool .stackUnderflow .boolToStrRequiresBool "bool-to-string operand"
    pushValue strValue
  | .nil => pushValue nilObjectValue
  | .allocWeak =>
    let target ← popReference point .stackUnderflow .badWeakTargetType "weak target"
    pushValue (weakValue target)
  | .weakGet =>
    let receiver ← popAny point .stackUnderflow "weak receiver"
    match receiver.kind, receiver.referenceTarget with
    | .weak, some target => pushValue (maybeReferenceValue target)
    | _, _ => point.reject .weakOperationOnNonWeak "receiver is not a typed weak reference"
  | .allocEphemeron =>
    match entryOperand ins.operand module.ephemeronLayouts with
    | none => point.reject .badEphemeronLayoutIndex "ephemeron layout is out of range"
    | some (_, layout) =>
      let value ← popAny point .stackUnderflow "ephemeron value"
      let key ← popReference point .stackUnderflow .badEphemeronKeyType "ephemeron key"
      requireConforming conforms point key layout.keyType .badEphemeronKeyType
        "ephemeron key type mismatch"
      requireConforming conforms point value layout.valueType .ephemeronValueTypeMismatch
        "ephemeron value type mismatch"
      pushValue (ephemeronValue (ephemeronSignature layout.keyType layout.valueType))
  | .ephemeronKey | .ephemeronValue | .ephemeronSetValue => transferEphemeron conforms point
  | .isNil =>
    let value ← popAny point .stackUnderflow "is_nil operand"
    if !isReferenceKind value.kind then
      point.reject .typeMismatch
        ("is_nil operand expected a reference but found " ++ value.kind.name)
    else pushValue { boolValue with nilTestLocal := value.sourceLocal }
  | .addI64 =>
    popTwo point .int64 .typeMismatch "right operand" "left operand"
    pushValue int64Value
  | .i64Abs =>
    let _ ← popExpect point .int64 .stackUnderflow .i64AbsRequiresI64 "absolute-value operand"
    pushValue int64Value
  | .allocBuilder => pushValue builderValue
  | .builderAppend =>
    let _ ← popExpect point .str .stackUnderflow .builderAppendRequiresStr "builder append value"
    let _ ← popExpect point .builder .stackUnderflow .builderOperationOnNonBuilder
      "builder receiver"
  | .builderLen =>
    let _ ← popExpect point .builder .stackUnderflow .builderOperationOnNonBuilder
      "builder receiver"
    pushValue int64Value
  | .builderToStr =>
    let _ ← popExpect point .builder .stackUnderflow .builderOperationOnNonBuilder
      "builder receiver"
    pushValue strValue
  | .builderClear =>
    let _ ← popExpect point .builder .stackUnderflow .builderOperationOnNonBuilder
      "builder receiver"
  | .lessI64 =>
    popTwo point .int64 .typeMismatch "right operand" "left operand"
    pushValue boolValue
  | .allocPair =>
    let right ← popAny point .stackUnderflow "right field"
    let left ← popAny point .stackUnderflow "left field"
    let allocated : PairFields := ⟨withoutProvenance left, withoutProvenance right⟩
    modify fun state =>
      let fields := (joinFieldsInto (state.fieldsBySite.getD point.pc none) (some allocated)).1
      { state with fieldsBySite := state.fieldsBySite.set point.pc fields }
    pushValue (objectValue point.pc)
  | .allocRecord =>
    let (layoutIndex, layout) ← requireEntry point ins.operand module.recordLayouts
      .badRecordLayoutIndex "record layout" "layout count"
    let height := (← get).stack.length
    if height < layout.fieldTypes.length then
      point.reject .badRecordInitializerArity
        ("record initializer requires " ++ toString layout.fieldTypes.length ++
          " fields but stack has " ++ toString height)
    popConforming conforms point .badRecordInitializerArity .badRecordInitializerType
      (fun i => "record initializer field " ++ toString i)
      (fun i => "record initializer field " ++ toString i ++
        " does not conform to its declared type")
      layout.fieldTypes
    pushValue (recordValue layoutIndex false)
  | .recordGet | .recordSet => transferRecordAccess conforms module point
  | .allocVariant =>
    let (layoutIndex, caseLayout) ← variantCase module point
    let height := (← get).stack.length
    if height < caseLayout.fieldTypes.length then
      point.reject .badVariantInitializerArity
        ("variant initializer requires " ++ toString caseLayout.fieldTypes.length ++
          " fields but stack has " ++ toString height)
    popConforming conforms point .badVariantInitializerArity .badVariantInitializerType
      (fun i => "variant initializer field " ++ toString i)
      (fun i => "variant initializer field " ++ toString i ++
        " does not conform to its declared type")
      caseLayout.fieldTypes
    pushValue (variantValue layoutIndex false)
  | .variantTag =>
    let _ ← popVariant point
    pushValue int64Value
  | .variantGet =>
    let (layoutIndex, caseLayout) ← variantCase module point
    let (_, type) ← requireEntry point ins.operand3 caseLayout.fieldTypes .badVariantFieldIndex
      "variant field" "field count"
    let receiver ← popVariant point
    if receiver.signatureVariantLayout ≠ some layoutIndex then
      point.reject .variantLayoutMismatch "receiver nominal layout differs from opcode layout"
    else pushValue (valueFromSignature type)
  | .tryBegin =>
    if !(entryOperand ins.operand point.function.exceptionHandlers).any
        fun (_, handler) => handler.tryBegin = point.pc then
      point.reject .badExceptionHandler "invalid try-begin delimiter"
  | .tryEnd =>
    if !(entryOperand ins.operand point.function.exceptionHandlers).any
        fun (_, handler) => handler.tryEnd = point.pc then
      point.reject .badExceptionHandler "invalid try-end delimiter"
  | .allocArray =>
    popTwo point .int64 .badArrayOperation "array init value" "array length"
    pushValue arrayValue
  | .arrayGet =>
    let _ ← popExpect point .int64 .stackUnderflow .badArrayOperation "array index"
    let _ ← popExpect point .array .stackUnderflow .badArrayOperation "array receiver"
    pushValue int64Value
  | .arraySet =>
    popTwo point .int64 .badArrayOperation "array stored value" "array index"
    let _ ← popExpect point .array .stackUnderflow .badArrayOperation "array receiver"
  | .arrayLen =>
    let receiver ← popAny point .stackUnderflow "array receiver"
    if receiver.kind ≠ .array ∧ receiver.kind ≠ .refArray then
      point.reject .badArrayOperation
        ("array receiver expected Array or RefArray but found " ++ receiver.kind.name)
    else pushValue int64Value
  | .allocRefArray =>
    let init ← popReference point .stackUnderflow .badArrayOperation "ref array init value"
    let _ ← popExpect point .int64 .stackUnderflow .badArrayOperation "ref array length"
    modify fun state =>
      { state with
        refArrayElementsBySite :=
          state.refArrayElementsBySite.set point.pc (some (withoutProvenance init)) }
    pushValue (refArrayValue point.pc)
  | .refArrayGet =>
    let _ ← popExpect point .int64 .stackUnderflow .badArrayOperation "ref array index"
    let receiver ← popExpect point .refArray .stackUnderflow .badArrayOperation
      "ref array receiver"
    match loadRefArrayElement (← get) receiver with
    | some loaded => pushValue loaded
    | none =>
      point.reject .badArrayOperation "ref array element facts are unavailable or incompatible"
  | .refArraySet =>
    let value ← popReference point .stackUnderflow .badArrayOperation "ref array stored value"
    let _ ← popExpect point .int64 .stackUnderflow .badArrayOperation "ref array index"
    let receiver ← popExpect point .refArray .stackUnderflow .badArrayOperation
      "ref array receiver"
    commitOrReject point .badArrayOperation "stored value does not satisfy ref array element facts"
      fun state => storeRefArrayElement conforms state receiver (withoutProvenance value)
  | .allocMap =>
    let (_, layout) ← requireEntry point ins.operand module.mapLayouts .badMapLayoutIndex
      "map layout operand" "layout count"
    pushValue (mapValue (mapSignature layout.keyType layout.valueType))
  | .mapGet | .mapHas =>
    let key ← popAny point .stackUnderflow "map key"
    let (keyType, valueType) ← popMap point .mapOperationOnNonMap "map receiver"
    requireConforming conforms point key keyType .mapKeyTypeMismatch
      "key does not match map key type"
    pushValue (if ins.op = .mapHas then boolValue else valueFromSignature valueType)
  | .mapSet =>
    let stored ← popAny point .stackUnderflow "map stored value"
    let key ← popAny point .stackUnderflow "map key"
    let (keyType, valueType) ← popMap point .mapOperationOnNonMap "map receiver"
    requireConforming conforms point key keyType .mapKeyTypeMismatch
      "key does not match map key type"
    requireConforming conforms point stored valueType .mapValueTypeMismatch
      "value does not match map value type"
  | .mapLen =>
    let _ ← popMap point .mapOperationOnNonMap "map receiver"
    pushValue int64Value
  | .mapKeyAt | .mapValueAt =>
    let _ ← popExpect point .int64 .stackUnderflow .badMapPositionAccess "map positional index"
    let (keyType, valueType) ← popMap point .badMapPositionAccess "map positional receiver"
    pushValue (valueFromSignature (if ins.op = .mapKeyAt then keyType else valueType))
  | .getLeft | .getRight =>
    let receiver ← popExpect point .object .stackUnderflow .typeMismatch "pair receiver"
    match loadPairField module (← get) receiver (ins.op = .getLeft) with
    | some loaded => pushValue loaded
    | none => point.reject .badPairFieldRead "pair field facts are unavailable or incompatible"
  | .setLeft | .setRight =>
    let value ← popAny point .stackUnderflow "stored field value"
    let receiver ← popExpect point .object .stackUnderflow .typeMismatch "pair receiver"
    commitOrReject point .badPairFieldWrite "stored value does not satisfy pair field facts"
      fun state => storePairField conforms module state receiver (ins.op = .setLeft)
        (withoutProvenance value)
  | .loadLocal =>
    match indexOperand ins.operand point.function.localCount with
    | none =>
      point.reject .badLocalIndex
        ("local operand " ++ toString ins.operand ++ " is outside local_count " ++
          toString point.function.localCount)
    | some index =>
      match (← get).locals.getD index none with
      | none =>
        point.reject .uninitializedLocal
          ("local " ++ toString index ++ " is uninitialized on at least one incoming path")
      | some value =>
        if isPoison value then
          point.reject .poisonUse ("local " ++ toString index ++ " contains a poison value")
        else pushValue { value with sourceLocal := some index, nilTestLocal := none }
  | .storeLocal =>
    match indexOperand ins.operand point.function.localCount with
    | none =>
      point.reject .badLocalIndex
        ("local operand " ++ toString ins.operand ++ " is outside local_count " ++
          toString point.function.localCount)
    | some index =>
      let stored ← popAny point .stackUnderflow "stored local value"
      modify fun state =>
        { state with
          locals := state.locals.set index (some (withoutProvenance stored))
          localReferenceKinds :=
            state.localReferenceKinds.set index (some (isReferenceKind stored.kind)) }
  | .collect => pure ()
  | .allocClosure =>
    let (_, layout) ← requireEntry point ins.operand module.closureLayouts .badClosureLayoutIndex
      "layout" "closure layout count"
    popConforming conforms point .badClosureCaptureArity .badClosureCaptureType
      (fun i => "capture " ++ toString i)
      (fun i => "capture " ++ toString i ++ " does not conform to closure layout type " ++
        (layout.captureTypes.getD i (signatureValue .nil)).kind.name)
      layout.captureTypes
    pushValue (valueFromSignature layout.functionType)
  | .callClosure => transferCallClosure conforms point
  | .loadCapture =>
    match point.function.closureLayout.bind (module.closureLayouts[·]?) with
    | none =>
      point.reject .loadCaptureOutsideClosureBody "current function has no closure-body layout"
    | some layout =>
      let (_, type) ← requireEntry point ins.operand layout.captureTypes .loadCaptureOutOfRange
        "capture" "capture count"
      pushValue (valueFromSignature type)
  | .call => transferCall conforms module point
  | .jump | .jumpIfFalse | .throw | .tailCall | .ret => pure ()

/-! ## Control flow -/

/-- A point the control flow leads to, and the state it is reached in. -/
abbrev Successor := ℕ × AbstractState

/-- `push_fallthrough_or_report`. -/
def pushFallthrough (point : Point) (state : AbstractState) :
    Except VerifierDiagnostic (List Successor) :=
  if point.function.code.length ≤ point.pc + 1 then
    point.reject .fallOffEnd "instruction would fall through past function end"
  else .ok [(point.pc + 1, state)]

/-- `add_exception_successor`: a handler starts with the exception as its only operand. -/
def exceptionSuccessor (handler : ExceptionHandler) (state : AbstractState) : Successor :=
  (handler.target, { state with stack := [variantValue handler.variantLayout false] })

/-- A local found nil. A maybe-reference stays one. -/
def refineNil (value : AbstractValue) : AbstractValue :=
  if value.kind ≠ .maybeReference then nilObjectValue else value

/-- A local found not to be nil. -/
def refineNonnil (value : AbstractValue) : AbstractValue :=
  match value.kind, value.referenceTarget with
  | .maybeReference, some target => withoutProvenance target
  | _, _ => { value with includesNil := false }

/-- Refines the local a nil test was about. -/
def refineLocal (refine : AbstractValue → AbstractValue) (tested : Option ℕ)
    (state : AbstractState) : AbstractState :=
  match tested with
  | none => state
  | some tested =>
    match state.locals.getD tested none with
    | none => state
    | some value => { state with locals := state.locals.set tested (some (refine value)) }

/-- The target an operand names, or the instruction is rejected. -/
def requireTarget (point : Point) : TransferM ℕ :=
  match indexOperand point.instruction.operand point.function.code.length with
  | some target => return target
  | none =>
    point.reject .badJumpTarget
      ("target " ++ toString point.instruction.operand ++ " is outside code size " ++
        toString point.function.code.length)

def transferThrow (point : Point) : TransferM (Option ℕ) := do
  let thrown ← popAny point .stackUnderflow "throw operand"
  if thrown.kind ≠ .variant ∨ thrown.includesNil ∨ thrown.signatureVariantLayout = none then
    point.reject .throwRequiresVariant "throw requires non-nil nominal variant"
  else return thrown.signatureVariantLayout

def transferTailCall (conforms : Conformance) (module : Module) (point : Point) :
    TransferM Unit := do
  if (enclosingHandler point.function point.pc none).isSome then
    point.reject .tailCallInTryRegion "tail call is not allowed inside an active try region"
  let (_, callee) ← requireEntry point point.instruction.operand module.functions
    .badTailCallTarget "callee" "function count"
  if needsCaptures module callee then
    point.reject .badTailCallTarget "direct TailCall cannot target a capture-bearing closure body"
  if returnSignature callee.signature ≠ returnSignature point.function.signature then
    point.reject .tailCallReturnTypeMismatch
      "callee return type does not match caller return type"
  let arity := callee.signature.parameters.length
  let height := (← get).stack.length
  if height < arity then
    point.reject .badTailCallArity
      ("tail call requires " ++ toString arity ++ " argument(s) but stack has " ++
        toString height)
  if arity < height then
    point.reject .tailCallStackShapeMismatch
      ("tail call stack must contain exactly " ++ toString arity ++ " argument(s) but has " ++
        toString height)
  popConforming conforms point .badTailCallArity .badTailCallArgKind
    (fun i => "tail argument " ++ toString i)
    (fun i => "tail argument " ++ toString i ++ " does not conform to callee parameter " ++
      (callee.signature.parameters.getD i .nil).name)
    (parameterSignatures callee.signature)

def transferReturn (conforms : Conformance) (point : Point) : TransferM Unit := do
  let returned ← popAny point .stackUnderflow "return value"
  requireConforming conforms point returned (returnSignature point.function.signature)
    .badReturnKind "return value does not conform to function signature"

/-- `transfer_instruction`: where the instruction leads from a state. -/
def transferInstruction (conforms : Conformance) (module : Module) (point : Point)
    (state : AbstractState) : Except VerifierDiagnostic (List Successor) :=
  match point.instruction.op with
  | .jump => do
    let (target, state) ← (requireTarget point).run state
    return [(target, state)]
  | .jumpIfFalse => do
    let (target, state) ← (requireTarget point).run state
    let (condition, state) ←
      (popExpect point .bool .stackUnderflow .typeMismatch "branch condition").run state
    let fallthrough ← pushFallthrough point (refineLocal refineNil condition.nilTestLocal state)
    return (target, refineLocal refineNonnil condition.nilTestLocal state) :: fallthrough
  | .throw => do
    let (layout, state) ← (transferThrow point).run state
    match enclosingHandler point.function point.pc layout with
    | some handler => return [exceptionSuccessor handler state]
    | none => return []
  | .tailCall => do
    let _ ← (transferTailCall conforms module point).run state
    return []
  | .ret => do
    let _ ← (transferReturn conforms point).run state
    return []
  | _ => do
    let (_, state) ← (transferStraightLine conforms module point).run state
    pushFallthrough point state

end LanguageRuntime.Bytecode
