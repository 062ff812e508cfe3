import LanguageRuntime.Bytecode.Module
import LanguageRuntime.Gc.Operation

/-!
# The virtual machine

The data members of `VM` (`include/lang/vm.hpp`), its roots, its frames and the runtime traces
of `src/vm.cpp`. The metrics and the trace sink take no part in what the machine computes and are
left out. Assertions are left out as well, except where the source relies on one for an index:
there the model fails with the message of the assertion.
-/

namespace LanguageRuntime.Vm

open LanguageRuntime LanguageRuntime.Bytecode

/-- The top of the operand stack is the head of the list. -/
structure Frame where
  functionIndex : ℕ
  pc : ℕ
  stack : List Value
  locals : List Value
  closure : Option Value
deriving DecidableEq, Repr

inductive RuntimeFailureKind where
  | trap
  | uncaughtException
deriving DecidableEq, Repr

structure RuntimeTraceFrame where
  functionIndex : ℕ
  pc : ℕ
  functionName : Option String
  sourcePosition : Option DebugSourcePosition
deriving DecidableEq, Repr

/-- A trace: the frames of the machine, the innermost one first. -/
structure RuntimeTrace where
  kind : RuntimeFailureKind
  exceptionVariant : Option String
  frames : List RuntimeTraceFrame
deriving DecidableEq, Repr

/-- The stress switches the machine reads: the intervals and the step budgets. -/
structure StressSchedule where
  collectEveryNInstructions : UInt64 := 0
  collectMinorEveryNInstructions : UInt64 := 0
  incrementalMarkStepBudgets : List ℕ := []
  incrementalCompactStepBudgets : List ℕ := []
deriving DecidableEq, Repr

structure Machine where
  /-- The innermost frame first. -/
  frames : List Frame
  pendingException : Option Value
  lastTrapTrace : Option RuntimeTrace
  heap : Gc.Heap
  gcStress : StressSchedule
  instructionsExecuted : UInt64
  incrementalBudgetCursor : UInt64
  incrementalCompactionBudgetCursor : UInt64
  maxCallDepth : ℕ
  output : List UInt8
deriving DecidableEq

/-- What a run can fail with: an exception of the heap, one of the machine, or an index the
verifier excludes. -/
inductive VmError where
  | heap (error : HeapError)
  | runtimeError (message : String)
  | assertion (message : String)
deriving DecidableEq, Repr

/-- A step of the machine: it may throw, and leaves a machine behind in either case. -/
abbrev VmM := EStateM VmError Machine

def kMaxOutputBytes : ℕ := 1024 * 1024

/-- A machine that has not run anything yet. -/
def Machine.initial (stressConfig : Gc.StressConfig) (gcStress : StressSchedule) : Machine where
  frames := []
  pendingException := none
  lastTrapTrace := none
  heap := Gc.Heap.empty stressConfig
  gcStress := gcStress
  instructionsExecuted := 0
  incrementalBudgetCursor := 0
  incrementalCompactionBudgetCursor := 0
  maxCallDepth := 1024
  output := []

/-! ## Roots -/

def Frame.rootCells (frame : Frame) : List Value :=
  frame.stack.reverse ++ frame.locals ++ frame.closure.toList

/-- The cells of `trace_roots`, in visiting order. -/
def Machine.rootCells (m : Machine) : List Value :=
  m.frames.reverse.flatMap Frame.rootCells ++ m.pendingException.toList

/-- A frame whose cells hold the first of the given values, and the values left over. -/
def Frame.refill (frame : Frame) (cells : List Value) : Frame × List Value :=
  let (stack, cells) := cells.splitAt frame.stack.length
  let (locals, cells) := cells.splitAt frame.locals.length
  let (closure, cells) := cells.splitAt frame.closure.toList.length
  ({ frame with stack := stack.reverse, locals := locals, closure := closure.head? }, cells)

/-- Frames, the outermost one first, whose cells hold the given values. -/
def refillFrames : List Frame → List Value → List Frame × List Value
  | [], cells => ([], cells)
  | frame :: frames, cells =>
    let (frame, cells) := frame.refill cells
    let (frames, cells) := refillFrames frames cells
    (frame :: frames, cells)

/-- The machine after a visitor has put values into the cells of `trace_roots`. -/
def Machine.refill (m : Machine) (cells : List Value) : Machine :=
  let (frames, cells) := refillFrames m.frames.reverse cells
  { m with frames := frames.reverse, pendingException := cells.head? }

/-- The heap as it sees the roots of the machine. -/
def Machine.rootedHeap (m : Machine) : Gc.Heap := { m.heap with rootCells := m.rootCells }

/-- The machine with another heap, which may have rewritten the roots. -/
def Machine.withHeap (m : Machine) (h : Gc.Heap) : Machine :=
  { m.refill h.rootCells with heap := h }

/-- Calls a member function of the heap. -/
def onHeap {α : Type} (operation : Gc.HeapM α) : VmM α := fun m =>
  match operation m.rootedHeap with
  | .ok a h => .ok a (m.withHeap h)
  | .error e h => .error (.heap e) (m.withHeap h)

/-- Calls a `const` member function of the heap. -/
def onHeapQuery {α : Type} (f : Gc.Heap → Except HeapError α) : VmM α := fun m =>
  match f m.heap with
  | .ok a => .ok a m
  | .error e => .error (.heap e) m

/-- A computation of the machine that throws what the heap throws. -/
def ofExcept {α : Type} (x : Except HeapError α) : VmM α := onHeapQuery fun _ => x

/-! ## Values -/

/-- `value.as_i64()`. -/
def asInt64 : Value → VmM Int64
  | .int64 v => return v
  | _ => throw (.heap (.logicError "value is not i64"))

/-- `value.as_bool()`. -/
def asBool : Value → VmM Bool
  | .bool b => return b
  | _ => throw (.heap (.logicError "value is not bool"))

/-- `value.as_object()`. -/
def asObject (value : Value) : VmM ObjectId := ofExcept (Gc.asObject value)

/-- The entry an operand names in a table of the module, where the source asserts that there is
one. -/
def requireEntry {α : Type} (operand : Int64) (table : List α) (message : String) : VmM (ℕ × α) :=
  match entryOperand operand table with
  | some entry => return entry
  | none => throw (.assertion ("verifier invariant violated: " ++ message))

/-- The function of an index, where the source indexes the module. -/
def requireFunction (module : Module) (functionIndex : ℕ) : VmM Function :=
  match module.functions[functionIndex]? with
  | some function => return function
  | none => throw (.assertion "verifier invariant violated: missing function")

def outOfRange {α : Type} (message : String) : VmM α := throw (.heap (.outOfRange message))

/-- A signed index as a size; the machine throws on a negative one. -/
def requireIndex (index : Int64) (message : String) : VmM ℕ :=
  if index < 0 then outOfRange message else return index.toNatClampNeg

/-! ## The innermost frame -/

/-- `frames_.back()`. -/
def activeFrame : VmM Frame := do
  match (← get).frames with
  | frame :: _ => return frame
  | [] => throw (.assertion "verifier invariant violated: no active frame")

/-- Changes the innermost frame. -/
def modifyFrame (f : Frame → Frame) : VmM Unit :=
  modify fun m => { m with frames := m.frames.modifyHead f }

def pop : VmM Value := do
  match (← activeFrame).stack with
  | value :: stack =>
    modifyFrame fun frame => { frame with stack := stack }
    return value
  | [] => throw (.runtimeError "VM stack underflow after bytecode verification")

/-- Pops the arguments, captures or fields of an instruction, the last one first. -/
def popMany (count : ℕ) : VmM (List Value) :=
  (List.range count).foldlM (fun values _ => do return (← pop) :: values) []

/-- The operand `depth` below the top of the stack. -/
def peek (depth : ℕ) : VmM Value := do
  match (← activeFrame).stack[depth]? with
  | some value => return value
  | none => throw (.assertion "verifier invariant violated: missing operand")

def push (value : Value) : VmM Unit :=
  modifyFrame fun frame => { frame with stack := value :: frame.stack }

/-- `++frame.pc`. -/
def advance : VmM Unit := modifyFrame fun frame => { frame with pc := frame.pc + 1 }

/-- Drops the operands of an instruction. -/
def drop (count : ℕ) : VmM Unit := do let _ ← popMany count

/-! ## Runtime traces -/

/-- `append_frame` of `capture_runtime_trace`. -/
def traceFrame (module : Module) (functionIndex pc : ℕ) : RuntimeTraceFrame where
  functionIndex := functionIndex
  pc := pc
  functionName := do
    let function ← module.functions[functionIndex]?
    if function.debugName.isEmpty then none else some function.debugName
  sourcePosition := do
    let function ← module.functions[functionIndex]?
    function.sourcePositions[pc]?

/-- The pc of the call a suspended frame is in: calls advance the pc before they push. -/
def Frame.callSite (frame : Frame) : ℕ := if frame.pc = 0 then 0 else frame.pc - 1

def Machine.captureRuntimeTrace (m : Machine) (module : Module)
    (activeFunctionIndex activePc : ℕ) (kind : RuntimeFailureKind)
    (exceptionVariant : Option String) : RuntimeTrace where
  kind := kind
  exceptionVariant := exceptionVariant
  frames :=
    traceFrame module activeFunctionIndex activePc ::
      m.frames.tail.map fun frame => traceFrame module frame.functionIndex frame.callSite

def runtimeTrap {α : Type} (functionIndex pc : ℕ) (diagnostic : String) : VmM α :=
  throw (.runtimeError ("runtime trap at function " ++ toString functionIndex ++ " pc " ++
    toString pc ++ ": " ++ diagnostic))

/-- `runtime_trap` at the instruction of the innermost frame. -/
def trapHere {α : Type} (diagnostic : String) : VmM α := do
  let frame ← activeFrame
  runtimeTrap frame.functionIndex frame.pc diagnostic

/-! ## Calls -/

/-- The locals of a frame that starts: the arguments, and nil in all others. -/
def startLocals (function : Function) (arguments : List Value) : List Value :=
  arguments ++ List.replicate (function.localCount - arguments.length) .nil

def pushFrame (module : Module) (functionIndex : ℕ) (arguments : List Value)
    (closure : Option Value) : VmM Unit := do
  if (← get).maxCallDepth ≤ (← get).frames.length then
    throw (.runtimeError "VM call depth limit exceeded")
  match module.functions[functionIndex]? with
  | none => throw (.runtimeError "VM attempted to call out-of-range function")
  | some function =>
    if arguments.length ≠ function.signature.parameters.length then
      throw (.runtimeError "VM call argument count mismatch after bytecode verification")
    if function.localCount < arguments.length then
      throw (.runtimeError "VM callee local count is smaller than parameter count")
    modify fun m => { m with frames := {
      functionIndex := functionIndex
      pc := 0
      stack := []
      locals := startLocals function arguments
      closure := closure } :: m.frames }

def reuseFrameForTailCall (module : Module) (functionIndex : ℕ) : VmM Unit := do
  let function ← requireFunction module functionIndex
  let arguments ← popMany function.signature.parameters.length
  modifyFrame fun frame => { frame with
    functionIndex := functionIndex
    pc := 0
    locals := startLocals function arguments
    closure := none }

/-! ## Collections at instruction boundaries -/

/-- A step interval that has come up. -/
def intervalDue (interval executed : UInt64) : Bool :=
  interval != 0 && executed != 0 && executed % interval == 0

/-- The budget of the next incremental step. -/
def nextBudget (budgets : List ℕ) (cursor : UInt64) : ℕ :=
  budgets.getD (cursor.toNat % budgets.length) 0

/-- The phase of incremental marking is over when no grey object is left. -/
def markingQuiescent (h : Gc.Heap) : Bool :=
  match h.phase with
  | .marking worklist => worklist.isEmpty
  | _ => false

/-- The phase of incremental compaction is over when the plan is. -/
def compactionQuiescent (h : Gc.Heap) : Bool :=
  match h.phase with
  | .compacting c => c.cursor == c.plan.length
  | _ => false

/-- Calls a public operation of the heap for its effect. -/
def collectWith (operation : Gc.Operation) : VmM Unit := do let _ ← onHeap operation.run

/-- The incremental marking step of a boundary. -/
def markAtBoundary : VmM Unit := do
  let gcStress := (← get).gcStress
  if !(← get).heap.incrementalMarkingActive then collectWith .startIncrementalMarking
  let budget := nextBudget gcStress.incrementalMarkStepBudgets (← get).incrementalBudgetCursor
  modify fun m => { m with incrementalBudgetCursor := m.incrementalBudgetCursor + 1 }
  collectWith (.incrementalMarkStep budget)
  if markingQuiescent (← get).heap then
    if gcStress.incrementalCompactStepBudgets.isEmpty then collectWith .finishIncrementalMarking
    else collectWith .finishIncrementalMarkingToIncrementalCompaction

/-- The incremental compaction step of a boundary. -/
def compactAtBoundary : VmM Unit := do
  let gcStress := (← get).gcStress
  if !(← get).heap.incrementalCompactionActive then collectWith .startIncrementalCompaction
  let budget :=
    nextBudget gcStress.incrementalCompactStepBudgets (← get).incrementalCompactionBudgetCursor
  modify fun m => { m with
    incrementalCompactionBudgetCursor := m.incrementalCompactionBudgetCursor + 1 }
  collectWith (.incrementalCompactStep budget)
  if compactionQuiescent (← get).heap then collectWith .finishIncrementalCompaction

def collectAtInstructionBoundaryIfNeeded : VmM Unit := do
  let gcStress := (← get).gcStress
  let executed := (← get).instructionsExecuted
  if intervalDue gcStress.collectEveryNInstructions executed then collectWith .collect
  if intervalDue gcStress.collectMinorEveryNInstructions executed then collectWith .collectMinor
  let markingStress := !gcStress.incrementalMarkStepBudgets.isEmpty
  let compactionStress := !gcStress.incrementalCompactStepBudgets.isEmpty
  if markingStress &&
      (!compactionStress || !(← get).heap.incrementalCompactionActive) then markAtBoundary
  else if compactionStress then compactAtBoundary

end LanguageRuntime.Vm
