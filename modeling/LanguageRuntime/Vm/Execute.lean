import LanguageRuntime.Vm.Machine

/-!
# The instructions of the virtual machine

The loop of `VM::execute_verified` (`src/vm.cpp`): what each instruction does to the machine,
the unwinding of an exception, and what a run ends with.
-/

namespace LanguageRuntime.Vm

open LanguageRuntime LanguageRuntime.Bytecode

/-! ## Conversions -/

def bytesOf (text : String) : List UInt8 := text.toUTF8.data.toList

/-- `canonical_i64`. -/
def canonicalInt64 (value : Int64) : List UInt8 := bytesOf (toString value)

def minusSign : UInt8 := 0x2D

def zeroDigit : UInt8 := 0x30

def nineDigit : UInt8 := 0x39

/-- The accumulation of a magnitude, as long as it does not exceed `limit`. -/
def parseDigits (limit : UInt64) : List UInt8 → UInt64 → Option UInt64
  | [], magnitude => some magnitude
  | byte :: bytes, magnitude =>
    if byte < zeroDigit ∨ nineDigit < byte then none
    else
      let digit := (byte - zeroDigit).toUInt64
      if (limit - digit) / 10 < magnitude then none
      else parseDigits limit bytes (magnitude * 10 + digit)

def kPositiveLimit : UInt64 := Int64.maxValue.toUInt64

def kNegativeLimit : UInt64 := kPositiveLimit + 1

/-- The largest magnitude of a number with or without a sign. -/
def magnitudeLimit (negative : Bool) : UInt64 :=
  if negative then kNegativeLimit else kPositiveLimit

/-- The value of a magnitude, negated behind a sign. -/
def signedMagnitude (negative : Bool) (magnitude : UInt64) : Int64 :=
  if !negative then magnitude.toInt64
  else if magnitude = kNegativeLimit then Int64.minValue
  else -magnitude.toInt64

/-- `parse_canonical_i64`; no answer where it throws. -/
def parseCanonicalInt64 (bytes : List UInt8) : Option Int64 :=
  match bytes with
  | [] => none
  | first :: rest =>
    let negative := first == minusSign
    let digits := if negative then rest else bytes
    match digits with
    | [] => none
    | digit :: others =>
      if digit = zeroDigit ∧ (negative ∨ others ≠ []) then none
      else
        match parseDigits (magnitudeLimit negative) digits 0 with
        | none => none
        | some magnitude => some (signedMagnitude negative magnitude)

/-! ## Straight-line instructions -/

/-- Pushes the identifier an allocation returns. -/
def pushAllocated (operation : Gc.HeapM ObjectId) : VmM Unit := do
  push (.object (← onHeap operation))

def executeStrConcat : VmM Unit := do
  let left ← peek 1
  let right ← peek 0
  let result ← onHeap (Gc.allocateStringConcat left right)
  drop 2
  push (.object result)

def executeStrSub : VmM Unit := do
  let source ← peek 2
  let lo ← asInt64 (← peek 1)
  let hi ← asInt64 (← peek 0)
  let sourceId ← asObject source
  let length ← onHeapQuery (·.stringLength sourceId)
  if lo < 0 ∨ hi < 0 ∨ hi < lo ∨ length < hi.toNatClampNeg then
    outOfRange "string substring bounds out of range"
  let result ← onHeap (Gc.allocateStringSubstring source lo.toNatClampNeg hi.toNatClampNeg)
  drop 3
  push (.object result)

/-- The byte order of `std::lexicographical_compare`. -/
def lexicographicalLess : List UInt8 → List UInt8 → Bool
  | [], [] => false
  | [], _ :: _ => true
  | _ :: _, [] => false
  | left :: lefts, right :: rights =>
    if left < right then true
    else if right < left then false
    else lexicographicalLess lefts rights

def executeStrLt : VmM Unit := do
  let right ← pop
  let left ← pop
  let leftId ← asObject left
  let leftBytes ← onHeapQuery (·.checkedString leftId)
  let rightId ← asObject right
  let rightBytes ← onHeapQuery (·.checkedString rightId)
  push (.bool (lexicographicalLess leftBytes rightBytes))

def executePrint : VmM Unit := do
  let receiver ← asObject (← peek 0)
  let bytes ← onHeapQuery (·.checkedString receiver)
  let output := (← get).output
  if kMaxOutputBytes ≤ output.length ∨ kMaxOutputBytes - output.length - 1 < bytes.length then
    trapHere "output buffer overflow"
  modify fun m => { m with output := m.output ++ bytes ++ [0x0A] }
  drop 1

def executeStrToI64 : VmM Unit := do
  let receiver ← asObject (← pop)
  match (← get).heap.checkedString receiver with
  | .error (.logicError message) => throw (.heap (.logicError message))
  | .error (.outOfRange message) => throw (.heap (.outOfRange message))
  | .error (.lengthError message) => throw (.heap (.lengthError message))
  | .error (.overflowError message) => throw (.heap (.overflowError message))
  | .ok bytes =>
    match parseCanonicalInt64 bytes with
    | some value => push (.int64 value)
    | none => trapHere "invalid string for i64 conversion"

/-- The loads: an operand pops off, and what the heap reads is pushed. -/
def executeLoad (load : ObjectId → Gc.Heap → Except HeapError Value) : VmM Unit := do
  let receiver ← asObject (← pop)
  push (← onHeapQuery (load receiver))

/-- The loads at an index, which may not be negative. -/
def executeIndexedLoad (message : String)
    (load : ObjectId → ℕ → Gc.Heap → Except HeapError Value) : VmM Unit := do
  let indexValue ← pop
  let receiver ← pop
  let index ← requireIndex (← asInt64 indexValue) message
  let id ← asObject receiver
  push (← onHeapQuery (load id index))

/-- A length as an operand. -/
def lengthValue (length : ℕ) : Value := .int64 (Int64.ofNat length)

/-- `length` as an operand, or the exception of a length that does not fit. -/
def checkedLengthValue (length : ℕ) (message : String) : Except HeapError Value :=
  if 2 ^ 63 - 1 < length then .error (.lengthError message) else .ok (lengthValue length)

def executeEphemeronValue (receiver : ObjectId) : VmM Unit := do
  match ← onHeapQuery (·.ephemeronValue receiver) with
  | .nil => trapHere "ephemeron entry cleared"
  | value => push value

/-- The operands of an arithmetic instruction. -/
def popInt64Pair : VmM (Int64 × Int64) := do
  let rhsValue ← pop
  let lhsValue ← pop
  let rhs ← asInt64 rhsValue
  let lhs ← asInt64 lhsValue
  return (lhs, rhs)

def executeI64Abs : VmM Unit := do
  let integer ← asInt64 (← pop)
  if integer = Int64.minValue then trapHere "absolute value overflow"
  push (.int64 (if integer < 0 then -integer else integer))

def executeBuilderAppend : VmM Unit := do
  let receiver ← asObject (← peek 1)
  let source ← peek 0
  onHeap (Gc.builderAppend receiver source)
  drop 2

def executeArrayLen : VmM Unit :=
  executeLoad fun id h => do
    let (_, object) ← h.resolve id
    let length ← if object.payload.kind = .refArray then h.refArrayLength id else h.arrayLength id
    checkedLengthValue length "scalar array length exceeds i64 result range"

/-- `AllocArray` and `AllocRefArray` below the check of the length. -/
def popLength (message : String) : VmM (Value × ℕ) := do
  let init ← pop
  let lengthValue ← pop
  let length ← requireIndex (← asInt64 lengthValue) message
  return (init, length)

/-- The operands of an indexed store. -/
def popIndexedStore (message : String) : VmM (Value × ObjectId × ℕ) := do
  let stored ← pop
  let indexValue ← pop
  let receiver ← pop
  let index ← requireIndex (← asInt64 indexValue) message
  let id ← asObject receiver
  return (stored, id, index)

def executeAllocRecord (module : Module) (ins : Instruction) : VmM Unit := do
  let (layoutIndex, layout) ← requireEntry ins.operand module.recordLayouts
    "AllocRecord layout must be in range"
  let fields ← popMany layout.fieldTypes.length
  pushAllocated (Gc.allocateRecord layoutIndex fields layout.referenceMap)

/-- The receiver of a record access. -/
def popRecord (module : Module) (ins : Instruction) (stored : Bool) :
    VmM (ObjectId × ℕ × Option Value) := do
  let (_, layout) ← requireEntry ins.operand module.recordLayouts
    "record layout must be in range"
  let (field, _) ← requireEntry ins.operand2 layout.fieldTypes "record field must be in range"
  let value ← if stored then some <$> pop else pure none
  let receiver ← asObject (← pop)
  return (receiver, field, value)

def executeRecordGet (module : Module) (ins : Instruction) : VmM Unit := do
  let (receiver, field, _) ← popRecord module ins false
  push (← onHeapQuery (·.recordGet receiver field))

def executeRecordSet (module : Module) (ins : Instruction) : VmM Unit := do
  let (receiver, field, stored) ← popRecord module ins true
  onHeap (Gc.storeRecordField receiver field (stored.getD .nil))

/-- The case a variant instruction names. -/
def variantCase (module : Module) (ins : Instruction) :
    VmM (ℕ × VariantLayout × ℕ × VariantCaseLayout) := do
  let (layoutIndex, layout) ← requireEntry ins.operand module.variantLayouts
    "variant layout must be in range"
  let (caseIndex, caseLayout) ← requireEntry ins.operand2 layout.cases
    "variant case must be in range"
  return (layoutIndex, layout, caseIndex, caseLayout)

def executeAllocVariant (module : Module) (ins : Instruction) : VmM Unit := do
  let (layoutIndex, layout, caseIndex, caseLayout) ← variantCase module ins
  let fields ← popMany caseLayout.fieldTypes.length
  pushAllocated (Gc.allocateVariant layoutIndex caseIndex fields
    (layout.cases.map VariantCaseLayout.referenceMap))

def executeVariantGet (module : Module) (ins : Instruction) : VmM Unit := do
  let (_, _, caseIndex, caseLayout) ← variantCase module ins
  let (field, _) ← requireEntry ins.operand3 caseLayout.fieldTypes
    "variant field must be in range"
  let receiver ← asObject (← pop)
  if (← onHeapQuery (·.variantTag receiver)) ≠ caseIndex then
    throw (.runtimeError "variant case tag mismatch")
  push (← onHeapQuery (·.variantGet receiver field))

def executeLoadLocal (ins : Instruction) : VmM Unit := do
  match (← activeFrame).locals[ins.operand.toNatClampNeg]? with
  | some value => push value
  | none => outOfRange "vector::at"

def executeStoreLocal (ins : Instruction) : VmM Unit := do
  let value ← pop
  let index := ins.operand.toNatClampNeg
  if (← activeFrame).locals.length ≤ index then outOfRange "vector::at"
  modifyFrame fun frame => { frame with locals := frame.locals.set index value }

def executeAllocClosure (module : Module) (ins : Instruction) : VmM Unit := do
  let (layoutIndex, layout) ← requireEntry ins.operand module.closureLayouts
    "AllocClosure layout must be in range"
  let captures ← popMany layout.captureTypes.length
  pushAllocated
    (Gc.allocateClosure layoutIndex layout.functionIndex captures layout.captureMap)

def executeLoadCapture (ins : Instruction) : VmM Unit := do
  match (← activeFrame).closure with
  | none => throw (.assertion "verifier invariant violated: LoadCapture requires closure frame")
  | some closure =>
    let id ← asObject closure
    push (← onHeapQuery (·.closureCapture id ins.operand.toNatClampNeg))

/-- The instructions that end with `++frame.pc`: what they do before. -/
def executeStraightLine (module : Module) (ins : Instruction) : VmM Unit := do
  match ins.op with
  | .constantI64 => push (.int64 ins.operand)
  | .pushStr =>
    let (_, constant) ← requireEntry ins.operand module.stringConstants
      "PushStr pool index must be in range"
    pushAllocated (Gc.allocateString constant)
  | .strLen => executeLoad fun id h => lengthValue <$> h.stringLength id
  | .strEq =>
    let right ← pop
    let left ← pop
    let leftId ← asObject left
    let rightId ← asObject right
    push (.bool (← onHeapQuery (·.stringEqual leftId rightId)))
  | .strConcat => executeStrConcat
  | .strIntern =>
    let result ← onHeap (Gc.internString (← peek 0))
    drop 1
    push (.object result)
  | .strSub => executeStrSub
  | .strLt => executeStrLt
  | .strIndex =>
    executeIndexedLoad "string index out of bounds" fun id index h =>
      (fun byte => .int64 (Int64.ofNat byte.toNat)) <$> h.stringIndex id index
  | .print => executePrint
  | .i64ToStr =>
    let value ← asInt64 (← pop)
    pushAllocated (Gc.allocateString (canonicalInt64 value))
  | .strToI64 => executeStrToI64
  | .boolToStr =>
    let value ← asBool (← pop)
    pushAllocated (Gc.allocateString (bytesOf (if value then "true" else "false")))
  | .nil => push .nil
  | .allocWeak => pushAllocated (Gc.allocateWeak (← pop))
  | .weakGet => executeLoad fun id h => h.weakGet id
  | .allocEphemeron =>
    let value ← pop
    let key ← pop
    let (_, layout) ← requireEntry ins.operand module.ephemeronLayouts
      "AllocEphemeron layout must be in range"
    pushAllocated (Gc.allocateEphemeron key value layout.valueIsRef)
  | .ephemeronKey => executeLoad fun id h => h.ephemeronKey id
  | .ephemeronValue => executeEphemeronValue (← asObject (← pop))
  | .ephemeronSetValue =>
    let value ← pop
    let receiver ← asObject (← pop)
    onHeap (Gc.storeEphemeronValue receiver value)
  | .isNil => push (.bool (← pop).isNil)
  | .addI64 =>
    let (lhs, rhs) ← popInt64Pair
    push (.int64 (lhs + rhs))
  | .i64Abs => executeI64Abs
  | .allocBuilder => pushAllocated Gc.allocateBuilder
  | .builderAppend => executeBuilderAppend
  | .builderLen => executeLoad fun id h => lengthValue <$> h.builderLength id
  | .builderToStr =>
    let result ← onHeap (Gc.builderToString (← peek 0))
    drop 1
    push (.object result)
  | .builderClear =>
    onHeap (Gc.builderClear (← asObject (← peek 0)))
    drop 1
  | .lessI64 =>
    let (lhs, rhs) ← popInt64Pair
    push (.bool (lhs < rhs))
  | .allocPair =>
    let right ← pop
    let left ← pop
    pushAllocated (Gc.allocatePair left right)
  | .allocRecord => executeAllocRecord module ins
  | .recordGet => executeRecordGet module ins
  | .recordSet => executeRecordSet module ins
  | .allocVariant => executeAllocVariant module ins
  | .variantTag => executeLoad fun id h => lengthValue <$> h.variantTag id
  | .variantGet => executeVariantGet module ins
  | .allocArray =>
    let (init, length) ← popLength "scalar array length out of bounds"
    pushAllocated (Gc.allocateScalarArray length (← asInt64 init))
  | .arrayGet =>
    executeIndexedLoad "scalar array index out of bounds" fun id index h =>
      .int64 <$> h.arrayGet id index
  | .arraySet =>
    let (stored, id, index) ← popIndexedStore "scalar array index out of bounds"
    onHeap (Gc.arraySet id index (← asInt64 stored))
  | .arrayLen => executeArrayLen
  | .allocRefArray =>
    let (init, length) ← popLength "ref array length out of bounds"
    pushAllocated (Gc.allocateRefArray length init)
  | .refArrayGet =>
    executeIndexedLoad "ref array index out of bounds" fun id index h => h.refArrayGet id index
  | .refArraySet =>
    let (stored, id, index) ← popIndexedStore "ref array index out of bounds"
    onHeap (Gc.storeRefArrayElement id index stored)
  | .allocMap =>
    let (layoutIndex, layout) ← requireEntry ins.operand module.mapLayouts
      "AllocMap layout must be in range"
    pushAllocated (Gc.allocateMap layoutIndex layout.keyIsRef layout.valueIsRef)
  | .mapSet =>
    let stored ← pop
    let key ← pop
    let receiver ← asObject (← pop)
    onHeap (Gc.storeMapEntry receiver key stored)
  | .mapGet =>
    let key ← pop
    executeLoad fun id h => h.mapGet id key
  | .mapHas =>
    let key ← pop
    executeLoad fun id h => .bool <$> h.mapHas id key
  | .mapLen =>
    executeLoad fun id h => do
      checkedLengthValue (← h.mapLength id) "map length exceeds i64 result range"
  | .mapKeyAt =>
    executeIndexedLoad "map entry index out of bounds" fun id index h => h.mapKeyAt id index
  | .mapValueAt =>
    executeIndexedLoad "map entry index out of bounds" fun id index h => h.mapValueAt id index
  | .getLeft => executeLoad fun id h => h.left id
  | .getRight => executeLoad fun id h => h.right id
  | .setLeft =>
    let value ← pop
    let receiver ← asObject (← pop)
    onHeap (Gc.storePairField receiver .left value)
  | .setRight =>
    let value ← pop
    let receiver ← asObject (← pop)
    onHeap (Gc.storePairField receiver .right value)
  | .loadLocal => executeLoadLocal ins
  | .storeLocal => executeStoreLocal ins
  | .collect => collectWith .collect
  | .allocClosure => executeAllocClosure module ins
  | .loadCapture => executeLoadCapture ins
  | .tryBegin | .tryEnd => pure ()
  | .jump | .jumpIfFalse | .throw | .call | .callClosure | .tailCall | .ret => pure ()

/-! ## Control flow -/

/-- The target of a jump, which the source asserts to be in range. -/
def requireTarget (function : Function) (ins : Instruction) : VmM ℕ := do
  let (target, _) ← requireEntry ins.operand function.code "Jump target must be in range"
  return target

def executeJumpIfFalse (function : Function) (ins : Instruction) : VmM Unit := do
  if ← asBool (← pop) then advance
  else
    let target ← requireTarget function ins
    modifyFrame fun frame => { frame with pc := target }

def executeCall (module : Module) (ins : Instruction) : VmM Unit := do
  let (calleeIndex, callee) ← requireEntry ins.operand module.functions
    "Call target must be in range"
  let arguments ← popMany callee.signature.parameters.length
  advance
  pushFrame module calleeIndex arguments none

def executeCallClosure (module : Module) : VmM Unit := do
  let closure ← pop
  let id ← asObject closure
  let calleeIndex ← onHeapQuery (·.closureFunctionIndex id)
  let callee ← requireFunction module calleeIndex
  let arguments ← popMany callee.signature.parameters.length
  advance
  pushFrame module calleeIndex arguments (some closure)

def executeTailCall (module : Module) (ins : Instruction) : VmM Unit := do
  let (calleeIndex, _) ← requireEntry ins.operand module.functions
    "TailCall target must be in range"
  reuseFrameForTailCall module calleeIndex

/-- `Return`: the value the program ends with, when the last frame returns. -/
def executeReturn : VmM (Option Value) := do
  let compacting := !(← get).gcStress.incrementalCompactStepBudgets.isEmpty
  if (← get).heap.incrementalMarkingActive then
    if compacting then collectWith .finishIncrementalMarkingToIncrementalCompaction
    else collectWith .finishIncrementalMarking
  if (← get).heap.incrementalCompactionActive then collectWith .finishIncrementalCompaction
  let result ← pop
  modify fun m => { m with frames := m.frames.tail }
  if (← get).frames.isEmpty then return some result
  push result
  return none

/-! ## Exceptions -/

/-- The handler of a function that an exception of a layout thrown at `site` goes to: of the
protected ranges around `site`, the one that begins last. -/
def selectHandler (function : Function) (site layout : ℕ) : Option ExceptionHandler :=
  function.exceptionHandlers.foldl (fun selected handler =>
    if handler.tryBegin < site ∧ site < handler.tryEnd ∧ handler.variantLayout = layout ∧
        selected.all (fun selected => selected.tryBegin < handler.tryBegin) then
      some handler
    else selected) none

/-- The layout of the pending exception. -/
def pendingLayout : VmM ℕ := do
  match (← get).pendingException with
  | some exception =>
    let id ← asObject exception
    onHeapQuery (·.variantLayoutIndex id)
  | none => throw (.assertion "verifier invariant violated: no pending exception")

/-- Enters a handler with the pending exception as the only operand. -/
def enterHandler (handler : ExceptionHandler) : VmM Unit := do
  let exception := (← get).pendingException
  modifyFrame fun frame => { frame with stack := exception.toList, pc := handler.target }
  modify fun m => { m with pendingException := none }

/-- The loop of `Throw`: whether a frame handles the pending exception. A round ends the loop or
removes a frame. -/
def unwind (module : Module) : ℕ → Bool → VmM Bool
  | 0, _ => return false
  | rounds + 1, initial => do
    match (← get).frames with
    | [] => return false
    | frame :: _ =>
      let function ← requireFunction module frame.functionIndex
      let site := if initial then frame.pc else frame.callSite
      let layout ← pendingLayout
      match selectHandler function site layout with
      | some handler =>
        enterHandler handler
        return true
      | none =>
        if (← get).gcStress.collectEveryNInstructions = 1 then collectWith .collect
        modify fun m => { m with frames := m.frames.tail }
        unwind module rounds false

def executeThrow (module : Module) : VmM Unit := do
  let exception ← pop
  modify fun m => { m with pendingException := some exception }
  let frame ← activeFrame
  let trace :=
    (← get).captureRuntimeTrace module frame.functionIndex frame.pc .uncaughtException none
  if !(← unwind module (← get).frames.length true) then
    let layout ← pendingLayout
    let name := (module.variantLayouts[layout]?.map VariantLayout.name).getD "<invalid>"
    modify fun m => { m with
      lastTrapTrace := some { trace with exceptionVariant := some name }
      pendingException := none }
    throw (.runtimeError ("uncaught exception " ++ name))

/-! ## Steps -/

/-- The switch over the instructions: the value the program ends with, when it ends. -/
def executeInstruction (module : Module) (function : Function) (ins : Instruction) :
    VmM (Option Value) := do
  match ins.op with
  | .jump =>
    let target ← requireTarget function ins
    modifyFrame fun frame => { frame with pc := target }
    return none
  | .jumpIfFalse => do executeJumpIfFalse function ins; return none
  | .throw => do executeThrow module; return none
  | .call => do executeCall module ins; return none
  | .callClosure => do executeCallClosure module; return none
  | .tailCall => do executeTailCall module ins; return none
  | .ret => executeReturn
  | _ => do
    executeStraightLine module ins
    advance
    return none

/-- A frame at a tail call gives up all but its operands. -/
def Frame.canonicalize (frame : Frame) : Frame :=
  { frame with locals := frame.locals.map fun _ => .nil, closure := none }

/-- One round of the loop: the value the program ends with, when it ends. -/
def step (module : Module) : VmM (Option Value) := do
  match (← get).frames with
  | [] => return some .nil
  | frame :: _ =>
    let function ← requireFunction module frame.functionIndex
    match function.code[frame.pc]? with
    | none => throw (.assertion "verifier invariant violated: missing stack map for pc")
    | some ins =>
      if ins.op = .tailCall then modifyFrame Frame.canonicalize
      collectAtInstructionBoundaryIfNeeded
      let result ← executeInstruction module function ins
      modify fun m => { m with instructionsExecuted := m.instructionsExecuted + 1 }
      return result

/-! ## Runs -/

/-- The start of `execute_verified`. -/
def startProgram : VmM Unit := do
  modify fun m => { m with output := [], lastTrapTrace := none }
  if (← get).heap.incrementalCompactionActive then collectWith .finishIncrementalCompaction
  if (← get).heap.incrementalMarkingActive then collectWith .finishIncrementalMarking
  modify fun m => { m with
    frames := []
    pendingException := none
    lastTrapTrace := none
    instructionsExecuted := 0
    incrementalBudgetCursor := 0
    incrementalCompactionBudgetCursor := 0 }

/-- The handler of an exception that ends a run, which throws it again. -/
def endTrapped {α : Type} (module : Module) (functionIndex pc : ℕ) (error : VmError) : VmM α := do
  if (← get).lastTrapTrace.isNone then
    modify fun m => { m with
      lastTrapTrace := some (m.captureRuntimeTrace module functionIndex pc .trap none) }
  if (← get).heap.incrementalMarkingActive then collectWith .finishIncrementalMarking
  if (← get).heap.incrementalCompactionActive then collectWith .finishIncrementalCompaction
  throw error

/-- The function and the pc a trap is reported at: those of the frame the round started with. -/
def activePoint (module : Module) (m : Machine) : ℕ × ℕ :=
  match m.frames with
  | frame :: _ => (frame.functionIndex, frame.pc)
  | [] => (module.entryFunction, 0)

/-- A part of the run whose exceptions end it. -/
def guarded {α : Type} (module : Module) (part : VmM α) : VmM α := fun m =>
  let (functionIndex, pc) := activePoint module m
  match part m with
  | .ok a m' => .ok a m'
  | .error e m' => endTrapped module functionIndex pc e m'

/-- The first `rounds` rounds of the loop; no answer when the program runs on. -/
def rounds (module : Module) : ℕ → VmM (Option Value)
  | 0 => return none
  | n + 1 => do
    match ← guarded module (step module) with
    | some result => return some result
    | none => rounds module n

/-- `VM::execute` of a verified module, for a run that is over after `n` rounds. -/
def execute (module : Module) (n : ℕ) : VmM (Option Value) := do
  startProgram
  guarded module (pushFrame module module.entryFunction [] none)
  rounds module n

end LanguageRuntime.Vm
