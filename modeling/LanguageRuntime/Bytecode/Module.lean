import Mathlib.Algebra.BigOperators.Intervals
import Mathlib.Order.Lattice.Nat

/-!
# Bytecode modules

The module format of `include/lang/bytecode.hpp`: instructions, signatures, layouts,
functions and modules.
-/

namespace LanguageRuntime.Bytecode

inductive OpCode where
  | constantI64
  | addI64
  | lessI64
  | allocPair
  | getLeft
  | getRight
  | setLeft
  | setRight
  | allocArray
  | arrayGet
  | arraySet
  | arrayLen
  | loadLocal
  | storeLocal
  | jump
  | jumpIfFalse
  | collect
  | call
  | ret
  | nil
  | isNil
  | allocRefArray
  | refArrayGet
  | refArraySet
  | pushStr
  | strLen
  | strEq
  | strConcat
  | strIndex
  | allocClosure
  | callClosure
  | loadCapture
  | allocMap
  | mapSet
  | mapGet
  | mapHas
  | mapLen
  | allocWeak
  | weakGet
  | mapKeyAt
  | mapValueAt
  | print
  | i64ToStr
  | strToI64
  | boolToStr
  | strSub
  | strLt
  | allocRecord
  | recordGet
  | recordSet
  | allocVariant
  | variantTag
  | variantGet
  | tryBegin
  | tryEnd
  | throw
  | allocEphemeron
  | ephemeronKey
  | ephemeronValue
  | ephemeronSetValue
  | tailCall
  | strIntern
  | i64Abs
  | allocBuilder
  | builderAppend
  | builderLen
  | builderToStr
  | builderClear
deriving DecidableEq, Repr

/-- `op_name`. -/
def OpCode.name : OpCode → String
  | constantI64 => "ConstantI64"
  | addI64 => "AddI64"
  | lessI64 => "LessI64"
  | allocPair => "AllocPair"
  | getLeft => "GetLeft"
  | getRight => "GetRight"
  | setLeft => "SetLeft"
  | setRight => "SetRight"
  | allocArray => "AllocArray"
  | arrayGet => "ArrayGet"
  | arraySet => "ArraySet"
  | arrayLen => "ArrayLen"
  | loadLocal => "LoadLocal"
  | storeLocal => "StoreLocal"
  | jump => "Jump"
  | jumpIfFalse => "JumpIfFalse"
  | collect => "Collect"
  | call => "Call"
  | ret => "Return"
  | nil => "Nil"
  | isNil => "IsNil"
  | allocRefArray => "AllocRefArray"
  | refArrayGet => "RefArrayGet"
  | refArraySet => "RefArraySet"
  | pushStr => "PushStr"
  | strLen => "StrLen"
  | strEq => "StrEq"
  | strConcat => "StrConcat"
  | strIndex => "StrIndex"
  | allocClosure => "AllocClosure"
  | callClosure => "CallClosure"
  | loadCapture => "LoadCapture"
  | allocMap => "AllocMap"
  | mapSet => "MapSet"
  | mapGet => "MapGet"
  | mapHas => "MapHas"
  | mapLen => "MapLen"
  | allocWeak => "AllocWeak"
  | weakGet => "WeakGet"
  | mapKeyAt => "MapKeyAt"
  | mapValueAt => "MapValueAt"
  | print => "Print"
  | i64ToStr => "I64ToStr"
  | strToI64 => "StrToI64"
  | boolToStr => "BoolToStr"
  | strSub => "StrSub"
  | strLt => "StrLt"
  | allocRecord => "AllocRecord"
  | recordGet => "RecordGet"
  | recordSet => "RecordSet"
  | allocVariant => "AllocVariant"
  | variantTag => "VariantTag"
  | variantGet => "VariantGet"
  | tryBegin => "TryBegin"
  | tryEnd => "TryEnd"
  | throw => "Throw"
  | allocEphemeron => "AllocEphemeron"
  | ephemeronKey => "EphemeronKey"
  | ephemeronValue => "EphemeronValue"
  | ephemeronSetValue => "EphemeronSetValue"
  | tailCall => "TailCall"
  | strIntern => "StrIntern"
  | i64Abs => "I64Abs"
  | allocBuilder => "AllocBuilder"
  | builderAppend => "BuilderAppend"
  | builderLen => "BuilderLen"
  | builderToStr => "BuilderToStr"
  | builderClear => "BuilderClear"

structure Instruction where
  op : OpCode
  operand : Int64 := 0
  operand2 : Int64 := 0
  operand3 : Int64 := 0
deriving DecidableEq, Repr

/-- An operand as an index into a table of `count` entries: the bounds test of the source and
the cast that follows it. -/
def indexOperand (operand : Int64) (count : ℕ) : Option ℕ :=
  if 0 ≤ operand ∧ operand.toNatClampNeg < count then some operand.toNatClampNeg else none

theorem indexOperand_lt {operand : Int64} {count index : ℕ}
    (h : indexOperand operand count = some index) : index < count := by
  unfold indexOperand at h
  split at h
  case isTrue hbounds =>
    cases h
    exact hbounds.2
  case isFalse => exact nomatch h

/-- The index an operand names in a table, with the entry there. -/
def entryOperand {α : Type} (operand : Int64) (table : List α) : Option (ℕ × α) :=
  if 0 ≤ operand then
    table[operand.toNatClampNeg]?.map fun entry => (operand.toNatClampNeg, entry)
  else none

theorem entryOperand_getElem? {α : Type} {operand : Int64} {table : List α} {index : ℕ} {entry : α}
    (h : entryOperand operand table = some (index, entry)) : table[index]? = some entry := by
  unfold entryOperand at h
  split at h
  case isTrue =>
    obtain ⟨entry', hentry, heq⟩ := Option.map_eq_some_iff.mp h
    cases heq
    exact hentry
  case isFalse => exact nomatch h

/-! ## Signatures -/

inductive ValueKind where
  | int64
  | bool
  | object
  | array
  | nil
  | str
  | function
  | map
  | weak
  | record
  | variant
  | ephemeron
  | builder
deriving DecidableEq, Repr

def ValueKind.name : ValueKind → String
  | int64 => "Int64"
  | bool => "Bool"
  | object => "Object"
  | array => "Array"
  | nil => "Nil"
  | str => "Str"
  | function => "Function"
  | map => "Map"
  | weak => "Weak"
  | record => "Record"
  | variant => "Variant"
  | ephemeron => "Ephemeron"
  | builder => "Builder"

/-- A static type; a null pointer of the source is `none`. -/
structure SignatureValue where
  kind : ValueKind
  left : Option SignatureValue := none
  right : Option SignatureValue := none
  element : Option SignatureValue := none
  key : Option SignatureValue := none
  value : Option SignatureValue := none
  weakTarget : Option SignatureValue := none
  functionParameters : List SignatureValue := []
  functionReturn : Option SignatureValue := none
  namedType : Option ℕ := none
  recordLayout : Option ℕ := none
  variantLayout : Option ℕ := none

mutual

def signatureValuesEqual : SignatureValue → SignatureValue → Bool
  | ⟨kind, left, right, element, key, value, weakTarget, parameters, ret, named, record, variant⟩,
    rhs =>
    kind == rhs.kind && named == rhs.namedType && record == rhs.recordLayout &&
      variant == rhs.variantLayout && signatureValuePtrEqual left rhs.left &&
      signatureValuePtrEqual right rhs.right && signatureValuePtrEqual element rhs.element &&
      signatureValuePtrEqual key rhs.key && signatureValuePtrEqual value rhs.value &&
      signatureValuePtrEqual weakTarget rhs.weakTarget &&
      signatureValuePtrEqual ret rhs.functionReturn &&
      signatureParametersEqual parameters rhs.functionParameters

def signatureValuePtrEqual : Option SignatureValue → Option SignatureValue → Bool
  | some lhs, some rhs => signatureValuesEqual lhs rhs
  | none, none => true
  | _, _ => false

/-- The loop of `signature_values_equal` over the function parameters. -/
def signatureParametersEqual : List SignatureValue → List SignatureValue → Bool
  | lhs :: lhsRest, rhs :: rhsRest =>
    signatureValuesEqual lhs rhs && signatureParametersEqual lhsRest rhsRest
  | [], [] => true
  | _, _ => false

end

mutual

theorem signatureValuesEqual_iff : ∀ {lhs rhs : SignatureValue},
    signatureValuesEqual lhs rhs = true ↔ lhs = rhs
  | ⟨kind, left, right, element, key, value, weakTarget, parameters, ret, named, record, variant⟩,
    ⟨kind', left', right', element', key', value', weakTarget', parameters', ret', named', record',
      variant'⟩ => by
    simp only [signatureValuesEqual, Bool.and_eq_true, beq_iff_eq, SignatureValue.mk.injEq,
      signatureValuePtrEqual_iff, signatureParametersEqual_iff]
    tauto

theorem signatureValuePtrEqual_iff : ∀ {lhs rhs : Option SignatureValue},
    signatureValuePtrEqual lhs rhs = true ↔ lhs = rhs
  | some lhs, some rhs => by
    simp only [signatureValuePtrEqual, Option.some.injEq, signatureValuesEqual_iff]
  | none, none => by simp [signatureValuePtrEqual]
  | some _, none => by simp [signatureValuePtrEqual]
  | none, some _ => by simp [signatureValuePtrEqual]

theorem signatureParametersEqual_iff : ∀ {lhs rhs : List SignatureValue},
    signatureParametersEqual lhs rhs = true ↔ lhs = rhs
  | lhs :: lhsRest, rhs :: rhsRest => by
    simp only [signatureParametersEqual, Bool.and_eq_true, List.cons.injEq,
      signatureValuesEqual_iff, signatureParametersEqual_iff]
  | [], [] => by simp [signatureParametersEqual]
  | _ :: _, [] => by simp [signatureParametersEqual]
  | [], _ :: _ => by simp [signatureParametersEqual]

end

instance : DecidableEq SignatureValue := fun lhs rhs =>
  decidable_of_iff (signatureValuesEqual lhs rhs = true) signatureValuesEqual_iff

namespace SignatureValue

/-! The shape predicates: which of the pointers and indices a signature of a kind carries. -/

def hasPairFields (s : SignatureValue) : Bool :=
  s.kind == .object && s.namedType.isNone && s.left.isSome && s.right.isSome &&
    s.element.isNone && s.key.isNone && s.value.isNone && s.weakTarget.isNone &&
    s.recordLayout.isNone && s.variantLayout.isNone

def hasArrayElement (s : SignatureValue) : Bool :=
  s.kind == .array && s.element.isSome && s.left.isNone && s.right.isNone && s.key.isNone &&
    s.value.isNone && s.weakTarget.isNone && s.namedType.isNone && s.recordLayout.isNone &&
    s.variantLayout.isNone

def isNamedTypeReference (s : SignatureValue) : Bool :=
  s.kind == .object && s.namedType.isSome && s.recordLayout.isNone && s.variantLayout.isNone

def hasFunctionSignature (s : SignatureValue) : Bool :=
  s.kind == .function && s.functionReturn.isSome && s.left.isNone && s.right.isNone &&
    s.element.isNone && s.key.isNone && s.value.isNone && s.weakTarget.isNone &&
    s.namedType.isNone && s.recordLayout.isNone && s.variantLayout.isNone

def hasMapEntries (s : SignatureValue) : Bool :=
  s.kind == .map && s.key.isSome && s.value.isSome && s.left.isNone && s.right.isNone &&
    s.element.isNone && s.functionReturn.isNone && s.functionParameters.isEmpty &&
    s.weakTarget.isNone && s.namedType.isNone && s.recordLayout.isNone && s.variantLayout.isNone

def hasWeakTarget (s : SignatureValue) : Bool :=
  s.kind == .weak && s.weakTarget.isSome && s.left.isNone && s.right.isNone &&
    s.element.isNone && s.key.isNone && s.value.isNone && s.functionReturn.isNone &&
    s.functionParameters.isEmpty && s.namedType.isNone && s.recordLayout.isNone &&
    s.variantLayout.isNone

def hasEphemeronEntries (s : SignatureValue) : Bool :=
  s.kind == .ephemeron && s.key.isSome && s.value.isSome && s.left.isNone && s.right.isNone &&
    s.element.isNone && s.weakTarget.isNone && s.functionReturn.isNone &&
    s.functionParameters.isEmpty && s.namedType.isNone && s.recordLayout.isNone &&
    s.variantLayout.isNone

def isRecordLayoutReference (s : SignatureValue) : Bool :=
  s.kind == .record && s.recordLayout.isSome && s.left.isNone && s.right.isNone &&
    s.element.isNone && s.key.isNone && s.value.isNone && s.weakTarget.isNone &&
    s.functionReturn.isNone && s.functionParameters.isEmpty && s.namedType.isNone &&
    s.variantLayout.isNone

def isVariantLayoutReference (s : SignatureValue) : Bool :=
  s.kind == .variant && s.variantLayout.isSome && s.left.isNone && s.right.isNone &&
    s.element.isNone && s.key.isNone && s.value.isNone && s.weakTarget.isNone &&
    s.functionReturn.isNone && s.functionParameters.isEmpty && s.namedType.isNone &&
    s.recordLayout.isNone

end SignatureValue

def signatureValue (kind : ValueKind) : SignatureValue := { kind := kind }

def pairSignature (left right : SignatureValue) : SignatureValue :=
  { kind := .object, left := some left, right := some right }

def namedTypeSignature (index : ℕ) : SignatureValue := { kind := .object, namedType := some index }

def arraySignature (element : SignatureValue) : SignatureValue :=
  { kind := .array, element := some element }

def functionSignature (parameters : List SignatureValue) (result : SignatureValue) :
    SignatureValue :=
  { kind := .function, functionParameters := parameters, functionReturn := some result }

def mapSignature (key value : SignatureValue) : SignatureValue :=
  { kind := .map, key := some key, value := some value }

def weakSignature (target : SignatureValue) : SignatureValue :=
  { kind := .weak, weakTarget := some target }

def ephemeronSignature (key value : SignatureValue) : SignatureValue :=
  { kind := .ephemeron, key := some key, value := some value }

def recordSignature (layoutIndex : ℕ) : SignatureValue :=
  { kind := .record, recordLayout := some layoutIndex }

def variantSignature (layoutIndex : ℕ) : SignatureValue :=
  { kind := .variant, variantLayout := some layoutIndex }

def signatureValueIsReference (s : SignatureValue) : Bool :=
  match s.kind with
  | .object | .array | .str | .function | .map | .weak | .record | .variant | .ephemeron
  | .builder => true
  | .int64 | .bool | .nil => false

/-! ## Layouts, functions and modules -/

structure NamedTypeSignature where
  name : String
  body : SignatureValue
deriving DecidableEq

structure FunctionSignature where
  parameters : List ValueKind := []
  returnType : ValueKind := .int64
  parameterTypes : List SignatureValue := []
  returnTypeDetail : Option SignatureValue := none
deriving DecidableEq

structure ClosureLayout where
  functionIndex : ℕ
  functionType : SignatureValue
  captureTypes : List SignatureValue
  captureMap : List Bool
deriving DecidableEq

structure MapLayout where
  keyType : SignatureValue
  valueType : SignatureValue
  keyIsRef : Bool
  valueIsRef : Bool
deriving DecidableEq

structure EphemeronLayout where
  keyType : SignatureValue
  valueType : SignatureValue
  valueIsRef : Bool
deriving DecidableEq

structure RecordLayout where
  name : String
  fieldTypes : List SignatureValue
  referenceMap : List Bool
deriving DecidableEq

structure VariantCaseLayout where
  name : String
  fieldTypes : List SignatureValue
  referenceMap : List Bool
deriving DecidableEq

structure VariantLayout where
  name : String
  cases : List VariantCaseLayout
deriving DecidableEq

/-- Which stack slots and locals hold references before the instruction at a pc. -/
structure StackMap where
  objectSlots : List Bool
  localObjectSlots : List Bool
deriving DecidableEq, Repr

structure ExceptionHandler where
  tryBegin : ℕ
  tryEnd : ℕ
  target : ℕ
  variantLayout : ℕ
deriving DecidableEq, Repr

structure DebugSourcePosition where
  line : ℕ
  column : ℕ
deriving DecidableEq, Repr

structure Function where
  signature : FunctionSignature
  code : List Instruction
  stackMaps : List StackMap := []
  localCount : ℕ
  closureLayout : Option ℕ := none
  exceptionHandlers : List ExceptionHandler := []
  debugName : String := ""
  sourcePositions : List DebugSourcePosition := []
deriving DecidableEq

structure Module where
  functions : List Function
  entryFunction : ℕ := 0
  namedTypes : List NamedTypeSignature := []
  stringConstants : List (List UInt8) := []
  closureLayouts : List ClosureLayout := []
  mapLayouts : List MapLayout := []
  recordLayouts : List RecordLayout := []
  variantLayouts : List VariantLayout := []
  ephemeronLayouts : List EphemeronLayout := []
deriving DecidableEq

/-- The type of a parameter: the detailed one, when the signature has details. -/
def parameterSignature (signature : FunctionSignature) (index : ℕ) : SignatureValue :=
  if signature.parameterTypes.isEmpty then
    signatureValue (signature.parameters.getD index .nil)
  else signature.parameterTypes.getD index (signatureValue .nil)

def returnSignature (signature : FunctionSignature) : SignatureValue :=
  match signature.returnTypeDetail with
  | some detail => detail
  | none => signatureValue signature.returnType

/-- The types of all parameters, first one first. -/
def parameterSignatures (signature : FunctionSignature) : List SignatureValue :=
  (List.range signature.parameters.length).map (parameterSignature signature)

def functionTypeFromSignature (signature : FunctionSignature) : SignatureValue :=
  functionSignature (parameterSignatures signature) (returnSignature signature)

end LanguageRuntime.Bytecode
