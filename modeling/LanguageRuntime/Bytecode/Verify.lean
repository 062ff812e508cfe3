import LanguageRuntime.Bytecode.Transfer
import LanguageRuntime.Library.Worklist

/-!
# The dataflow analysis of a function

`verify_function_with_stack_maps` of `src/bytecode.cpp`: the checks of a function, the
worklist loop that computes a state for every pc, and the stack maps read off the states.
-/

namespace LanguageRuntime.Bytecode

open LanguageRuntime.Library

/-! ## Signatures -/

mutual

def signatureShapeMatchesKind (module : Module) : SignatureValue → ValueKind → Bool
  | ⟨kind, left, right, element, key, value, weakTarget, parameters, ret, named, record, variant⟩,
    expected =>
    let signature : SignatureValue :=
      ⟨kind, left, right, element, key, value, weakTarget, parameters, ret, named, record, variant⟩
    let noPair := left.isNone && right.isNone
    let noEntries := key.isNone && value.isNone && weakTarget.isNone
    let noFunction := ret.isNone && parameters.isEmpty
    let noLayout := record.isNone && variant.isNone
    if kind ≠ expected then false
    else if signature.isRecordLayoutReference then
      record.any (· < module.recordLayouts.length)
    else if signature.isVariantLayoutReference then
      variant.any (· < module.variantLayouts.length)
    else if signature.isNamedTypeReference then
      kind == .object && named.any (· < module.namedTypes.length) && noPair && element.isNone &&
        noEntries && noFunction && noLayout
    else if signature.hasPairFields then
      pointerShapeMatches module left && pointerShapeMatches module right && element.isNone &&
        noEntries && noFunction && noLayout
    else if signature.hasArrayElement then
      kind == .array && pointerShapeMatches module element && noPair && noEntries && noFunction &&
        noLayout
    else if signature.hasFunctionSignature then
      pointerShapeMatches module ret && parameterShapesMatch module parameters
    else if signature.hasMapEntries then
      pointerShapeMatches module key && pointerShapeMatches module value
    else if signature.hasWeakTarget then
      weakTarget.any signatureValueIsReference && pointerShapeMatches module weakTarget
    else if signature.hasEphemeronEntries then
      key.any signatureValueIsReference && pointerShapeMatches module key &&
        pointerShapeMatches module value
    else if kind ∈ [.function, .map, .weak, .record, .variant, .ephemeron] then false
    else
      noPair && element.isNone && noEntries && noFunction && named.isNone && noLayout

/-- The shape check of a signature behind a pointer, against its own kind. -/
def pointerShapeMatches (module : Module) : Option SignatureValue → Bool
  | some signature => signatureShapeMatchesKind module signature signature.kind
  | none => false

def parameterShapesMatch (module : Module) : List SignatureValue → Bool
  | parameter :: parameters =>
    signatureShapeMatchesKind module parameter parameter.kind &&
      parameterShapesMatch module parameters
  | [] => true

end

def signatureIsWellFormed (module : Module) (signature : FunctionSignature) : Bool :=
  (signature.parameterTypes.isEmpty ||
      signature.parameterTypes.length == signature.parameters.length) &&
    signature.parameters.zipIdx.all (fun (kind, i) =>
      (kind != .record || signature.parameterTypes[i]?.any (·.isRecordLayoutReference)) &&
        (kind != .variant || signature.parameterTypes[i]?.any (·.isVariantLayoutReference))) &&
    (signature.parameterTypes.zip signature.parameters).all
      (fun (type, kind) => signatureShapeMatchesKind module type kind) &&
    (signature.returnType != .record ||
      signature.returnTypeDetail.any (·.isRecordLayoutReference)) &&
    (signature.returnType != .variant ||
      signature.returnTypeDetail.any (·.isVariantLayoutReference)) &&
    signature.returnTypeDetail.all
      (fun detail => signatureShapeMatchesKind module detail signature.returnType)

/-! ## Exception handlers -/

/-- The delimiters of a handler stand where its range says. -/
def handlerDelimiters (module : Module) (function : Function) (index : ℕ)
    (handler : ExceptionHandler) : Bool :=
  let delimits (pc : ℕ) (op : OpCode) : Bool :=
    function.code[pc]?.any fun ins => ins.op == op && ins.operand == Int64.ofNat index
  decide (handler.tryBegin < handler.tryEnd) && decide (handler.tryEnd < function.code.length) &&
    decide (handler.target < function.code.length) && decide (handler.tryEnd < handler.target) &&
    decide (handler.variantLayout < module.variantLayouts.length) &&
    delimits handler.tryBegin .tryBegin && delimits handler.tryEnd .tryEnd

/-- An earlier handler crosses a later one or shares its target. -/
def handlersClash (other handler : ExceptionHandler) : Bool :=
  (decide (other.tryBegin < handler.tryBegin) && decide (handler.tryBegin < other.tryEnd) &&
      decide (other.tryEnd < handler.tryEnd)) ||
    other.target == handler.target

/-- The message the checks of the exception handlers reject a function with. -/
def exceptionHandlersError (module : Module) (function : Function) : Option String :=
  function.exceptionHandlers.zipIdx.findSome? fun (handler, i) =>
    if !handlerDelimiters module function i handler then
      some "exception handler range, target, layout, or delimiters are malformed"
    else if (function.exceptionHandlers.take i).any (handlersClash · handler) then
      some "exception handlers must be properly nested with distinct targets"
    else none

/-! ## The worklist -/

/-- The variables of the worklist loop: the state of each pc, and the pcs to visit, first one
first. -/
abbrev Dataflow := Worklist.Flow AbstractState

/-- A diagnostic of the whole function. -/
def rejectFunction {α : Type} (functionIndex : ℕ) (reason : VerifierReason) (message : String) :
    Except VerifierDiagnostic α :=
  .error ⟨functionIndex, none, reason, message⟩

/-- A diagnostic of a merge at `target`. -/
def rejectMerge {α : Type} (functionIndex target : ℕ) (reason : VerifierReason)
    (message : String) : Except VerifierDiagnostic α :=
  .error ⟨functionIndex, some target, reason, message⟩

/-- The handlers an instruction may transfer to on its own or through a callee. -/
def exceptionHandlersAt (point : Point) : List ExceptionHandler :=
  match point.instruction.op with
  | .tryBegin =>
    ((entryOperand point.instruction.operand point.function.exceptionHandlers).map Prod.snd).toList
  | .call | .callClosure => (enclosingHandler point.function point.pc none).toList
  | _ => []

/-- Everywhere an instruction leads from a state. -/
def successorsAt (conforms : Conformance) (module : Module) (point : Point)
    (state : AbstractState) : Except VerifierDiagnostic (List Successor) := do
  let successors ← transferInstruction conforms module point state
  return successors ++ (exceptionHandlersAt point).map (exceptionSuccessor · state)

/-- Joins a state into the one its target has: no answer when that does not change it. -/
def joinAt (functionIndex target : ℕ) (existing state : AbstractState) :
    Except VerifierDiagnostic (Option AbstractState) :=
  if existing.stack.length ≠ state.stack.length then
    rejectMerge functionIndex target .stackHeightMergeMismatch
      ("target pc " ++ toString target ++ " has incoming stack height " ++
        toString state.stack.length ++ " but existing height is " ++
        toString existing.stack.length)
  else if existing.locals.length ≠ state.locals.length then
    rejectMerge functionIndex target .localCountMismatch
      ("target pc " ++ toString target ++ " has incoming local count " ++
        toString state.locals.length ++ " but existing count is " ++
        toString existing.locals.length)
  else
    match joinStateInto existing state with
    | none =>
      rejectMerge functionIndex target .stackHeightMergeMismatch
        "control-flow merge has incompatible state shape"
    | some (joined, changed) => .ok (if changed then some joined else none)

/-- The first `rounds` rounds of the worklist loop. The answers of the conformance checks may
differ from round to round. -/
def visitRounds (answers : ℕ → Conformance) (module : Module) (function : Function)
    (functionIndex : ℕ) (flow : Dataflow) (rounds : ℕ) : Except VerifierDiagnostic Dataflow :=
  Worklist.visits
    (fun round pc => successorsAt (answers round) module ⟨function, functionIndex, pc⟩)
    (joinAt functionIndex) flow rounds

/-- The state of a function before its first instruction. -/
def initialState (function : Function) : AbstractState :=
  let parameters := (parameterSignatures function.signature).map valueFromSignature
  let rest := function.localCount - parameters.length
  { stack := []
    locals := parameters.map some ++ List.replicate rest none
    localReferenceKinds :=
      parameters.map (fun value => some (isReferenceKind value.kind)) ++ List.replicate rest none
    fieldsBySite := List.replicate function.code.length none
    refArrayElementsBySite := List.replicate function.code.length none }

/-- The variables of the worklist loop at its start. -/
def initialDataflow (function : Function) : Dataflow :=
  ⟨(List.replicate function.code.length none).set 0 (some (initialState function)), [0]⟩

/-- The checks of a function before its analysis. -/
def checkFunction (module : Module) (functionIndex : ℕ) (function : Function) :
    Except VerifierDiagnostic Unit := do
  if !function.stackMaps.isEmpty && function.stackMaps.length != function.code.length then
    rejectFunction functionIndex .badStackMap
      ("stack_maps size " ++ toString function.stackMaps.length ++
        " does not match code size " ++ toString function.code.length)
  if function.code.isEmpty then
    rejectFunction functionIndex .emptyFunction "function has no bytecode"
  if !signatureIsWellFormed module function.signature then
    rejectFunction functionIndex .signatureShapeMismatch
      "function signature detail shape does not match coarse kinds"
  if function.localCount < function.signature.parameters.length then
    rejectFunction functionIndex .localCountMismatch
      ("local_count " ++ toString function.localCount ++ " is smaller than parameter count " ++
        toString function.signature.parameters.length)
  match exceptionHandlersError module function with
  | some message => rejectFunction functionIndex .badExceptionHandler message
  | none => return ()

/-- The stack map of a pc, from the state the analysis ends with. -/
def stackMapAt (function : Function) (functionIndex pc : ℕ) (state : Option AbstractState) :
    Except VerifierDiagnostic StackMap :=
  let boundary := function.code[pc]?.any fun ins => ins.op == .tailCall
  match state with
  | none =>
    rejectMerge functionIndex pc .unreachableCode
      "bytecode pc is unreachable from function entry"
  | some state =>
    match stackMapFromState state boundary with
    | none =>
      rejectMerge functionIndex pc .poisonUse
        "cannot generate stack map for poison stack value"
    | some map =>
      if function.stackMaps[pc]?.any fun supplied => !stackMapMatches supplied state boundary then
        rejectMerge functionIndex pc .badStackMap
          "supplied stack map does not match verifier state"
      else .ok map

/-- `verify_function_with_stack_maps`, for an analysis that is over after `rounds` rounds; no
answer when it is not. -/
def verifyFunction (answers : ℕ → Conformance) (module : Module) (functionIndex : ℕ)
    (function : Function) (rounds : ℕ) : Except VerifierDiagnostic (Option (List StackMap)) := do
  checkFunction module functionIndex function
  let flow ← visitRounds answers module function functionIndex (initialDataflow function) rounds
  if flow.worklist.isEmpty then
    some <$> flow.states.zipIdx.mapM fun (state, pc) => stackMapAt function functionIndex pc state
  else return none

end LanguageRuntime.Bytecode
