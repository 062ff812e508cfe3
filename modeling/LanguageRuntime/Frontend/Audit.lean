import LanguageRuntime.Frontend.Compiler
import Mathlib.Algebra.BigOperators.Group.List.Basic

/-!
# The audit of array opcodes

The check of `src/frontend/compiler.cpp` that a module has the array opcodes its tree asks for,
and the analysis it makes of its own of which statements are reached. Where the source adds to
counts it is given, the counts here are what it adds.
-/

namespace LanguageRuntime.Frontend

open Bytecode

@[ext]
structure ArrayOpcodeCounts where
  allocScalar : ℕ := 0
  allocRef : ℕ := 0
  getScalar : ℕ := 0
  getRef : ℕ := 0
  setScalar : ℕ := 0
  setRef : ℕ := 0
deriving DecidableEq, Repr

namespace ArrayOpcodeCounts

instance : Zero ArrayOpcodeCounts := ⟨{}⟩

instance : Add ArrayOpcodeCounts := ⟨fun lhs rhs => {
  allocScalar := lhs.allocScalar + rhs.allocScalar
  allocRef := lhs.allocRef + rhs.allocRef
  getScalar := lhs.getScalar + rhs.getScalar
  getRef := lhs.getRef + rhs.getRef
  setScalar := lhs.setScalar + rhs.setScalar
  setRef := lhs.setRef + rhs.setRef }⟩

section Components

variable (lhs rhs : ArrayOpcodeCounts)

@[simp] theorem allocScalar_zero : (0 : ArrayOpcodeCounts).allocScalar = 0 := rfl
@[simp] theorem allocRef_zero : (0 : ArrayOpcodeCounts).allocRef = 0 := rfl
@[simp] theorem getScalar_zero : (0 : ArrayOpcodeCounts).getScalar = 0 := rfl
@[simp] theorem getRef_zero : (0 : ArrayOpcodeCounts).getRef = 0 := rfl
@[simp] theorem setScalar_zero : (0 : ArrayOpcodeCounts).setScalar = 0 := rfl
@[simp] theorem setRef_zero : (0 : ArrayOpcodeCounts).setRef = 0 := rfl

@[simp] theorem allocScalar_add : (lhs + rhs).allocScalar = lhs.allocScalar + rhs.allocScalar := rfl
@[simp] theorem allocRef_add : (lhs + rhs).allocRef = lhs.allocRef + rhs.allocRef := rfl
@[simp] theorem getScalar_add : (lhs + rhs).getScalar = lhs.getScalar + rhs.getScalar := rfl
@[simp] theorem getRef_add : (lhs + rhs).getRef = lhs.getRef + rhs.getRef := rfl
@[simp] theorem setScalar_add : (lhs + rhs).setScalar = lhs.setScalar + rhs.setScalar := rfl
@[simp] theorem setRef_add : (lhs + rhs).setRef = lhs.setRef + rhs.setRef := rfl

end Components

instance : AddCommMonoid ArrayOpcodeCounts where
  add_assoc a b c := by ext <;> exact Nat.add_assoc _ _ _
  zero_add a := by ext <;> exact Nat.zero_add _
  add_zero a := by ext <;> exact Nat.add_zero _
  add_comm a b := by ext <;> exact Nat.add_comm _ _
  nsmul := nsmulRec

instance : IsCancelAdd ArrayOpcodeCounts where
  add_left_cancel a b c h := by
    rw [ArrayOpcodeCounts.ext_iff] at h
    simp only [allocScalar_add, allocRef_add, getScalar_add, getRef_add, setScalar_add, setRef_add,
      Nat.add_left_cancel_iff] at h
    exact ArrayOpcodeCounts.ext_iff.mpr h
  add_right_cancel a b c h := by
    rw [ArrayOpcodeCounts.ext_iff] at h
    simp only [allocScalar_add, allocRef_add, getScalar_add, getRef_add, setScalar_add, setRef_add,
      Nat.add_right_cancel_iff] at h
    exact ArrayOpcodeCounts.ext_iff.mpr h

end ArrayOpcodeCounts

/-- One read of an element of an array of this type. -/
def getCounts (arrayType : TypeSpec) : ArrayOpcodeCounts :=
  if isRefArrayType arrayType then { getRef := 1 } else { getScalar := 1 }

/-- One write to an array of this type. -/
def setCounts (arrayType : TypeSpec) : ArrayOpcodeCounts :=
  if isRefArrayType arrayType then { setRef := 1 } else { setScalar := 1 }

/-! ## Which statements are reached -/

/-- What is said of a statement with respect to a loop around it, given the label of the loop and
whether a `break` without a label targets it: whether control reaches the end of the statement,
and whether it breaks the loop. -/
abbrev Flow := String → Bool → Bool × Bool

/-- The loop of `block_fallthrough_and_current_break`. -/
def blockFlow (currentLoopLabel : String) (unlabeledTargetsCurrent : Bool) :
    List Flow → Bool × Bool
  | [] => (true, false)
  | statement :: statements =>
    let (falls, hasBreak) := statement currentLoopLabel unlabeledTargetsCurrent
    if falls then
      let (fallsThrough, rest) := blockFlow currentLoopLabel unlabeledTargetsCurrent statements
      (fallsThrough, hasBreak || rest)
    else (false, hasBreak)

/-- The turn of that loop: what the audit says of a statement. -/
def auditFlow (statement : Statement) (parts : StatementParts Unit Flow) : Flow :=
  fun currentLoopLabel unlabeledTargetsCurrent =>
    let flowOf := blockFlow currentLoopLabel unlabeledTargetsCurrent
    match statement.kind with
    | .break =>
      (false, (unlabeledTargetsCurrent && statement.loopControlLabel.isEmpty) ||
        statement.loopControlLabel = currentLoopLabel)
    | .continue | .throw | .tailCall => (false, false)
    | .if =>
      let thenFlow := flowOf parts.thenBranch
      let elseFlow := flowOf parts.elseBranch
      (thenFlow.1 || elseFlow.1, thenFlow.2 || elseFlow.2)
    | .match =>
      let flows := parts.matchArms.map fun arm => flowOf arm.2
      (flows.any Prod.fst, flows.any Prod.snd)
    | .tryCatch =>
      let tryFlow := flowOf parts.body
      let catchFlow := flowOf parts.catchBody
      (tryFlow.1 || catchFlow.1, tryFlow.2 || catchFlow.2)
    | .while =>
      let localFlow := blockFlow statement.loopLabel true parts.body
      let selectedFlow := blockFlow currentLoopLabel false parts.body
      (!statement.conditionIsTrueLiteral || localFlow.2, selectedFlow.2)
    | .forIn => (true, (blockFlow currentLoopLabel false parts.body).2)
    | .let | .assign | .print | .ephemeronSet | .builderAppend | .builderClear => (true, false)

def auditFlows : TreeAlgebra Unit Unit Flow where
  expr _ _ := ()
  lambda _ _ := ()
  statement := auditFlow

def blockFallthroughAndCurrentBreak (statements : List Statement) (currentLoopLabel : String)
    (unlabeledTargetsCurrent : Bool := true) : Bool × Bool :=
  blockFlow currentLoopLabel unlabeledTargetsCurrent (statements.map (Statement.fold auditFlows))

/-! ## Expected opcodes -/

/-- The counts of a block, statement by statement up to the first that does not fall through, and
whether the block does. -/
def blockArrayCounts : List (ArrayOpcodeCounts × Bool) → ArrayOpcodeCounts × Bool
  | [] => (0, true)
  | (counts, falls) :: statements =>
    if falls then
      let rest := blockArrayCounts statements
      (counts + rest.1, rest.2)
    else (counts, false)

/-- The counts of a body and its result. -/
def bodyArrayCounts (statements : List (ArrayOpcodeCounts × Bool))
    (result : Option ArrayOpcodeCounts) : ArrayOpcodeCounts :=
  let block := blockArrayCounts statements
  if block.2 then block.1 + result.getD 0 else block.1

section Expected

variable (statement : Statement)
  (parts : StatementParts ArrayOpcodeCounts (ArrayOpcodeCounts × Bool))

def addExprArrayCounts (expression : Expr) (parts : ExprParts ArrayOpcodeCounts ArrayOpcodeCounts) :
    ArrayOpcodeCounts :=
  match expression.kind with
  | .intLiteral | .boolLiteral | .stringLiteral | .nilLiteral | .variable | .mapEmpty
  | .builderConstruct => 0
  | .lambda => parts.lambda.getD 0
  | .pairLiteral | .binary | .ephemeronConstruct => parts.left.getD 0 + parts.right.getD 0
  | .recordLiteral | .variantLiteral | .abs | .min | .max => parts.arguments.sum
  | .arrayLiteral =>
    parts.arguments.sum +
      if isRefArrayType expression.inferredType then
        { allocRef := 1, setRef := parts.arguments.length - 1 }
      else { allocScalar := 1, setScalar := parts.arguments.length - 1 }
  | .arraySized =>
    parts.left.getD 0 + parts.right.getD 0 +
      if isScalarArrayElementType expression.arrayElementType then { allocScalar := 1 }
      else { allocRef := 1 }
  | .arrayIndex =>
    parts.receiver.getD 0 + parts.left.getD 0 +
      if expression.receiverKind = some .str || expression.receiverKind = some .map then 0
      else getCounts ((expression.receiver.map (·.inferredType)).getD invalidType)
  | .strSub | .strContains | .strIndexOf | .strStartsWith | .strEndsWith =>
    parts.receiver.getD 0 + parts.arguments.sum
  | .arrayLen | .field | .isNil | .weakConstruct | .weakGet | .ephemeronKey | .ephemeronValue
  | .builderToStr | .toStr | .toI64 | .intern => parts.receiver.getD 0
  | .mapHas => parts.receiver.getD 0 + parts.left.getD 0
  | .call =>
    parts.arguments.sum + if expression.directCall then 0 else parts.receiver.getD 0

/-- One turn of `add_lvalue_prefix_array_counts`. -/
def addLValueStepArrayCounts (step : LValueStep) (index : Option ArrayOpcodeCounts) :
    ArrayOpcodeCounts :=
  match step.kind with
  | .field => 0
  | .index =>
    index.getD 0 + if step.receiverType.kind = .map then 0 else getCounts step.receiverType

def addAssignmentArrayCounts : ArrayOpcodeCounts :=
  parts.value.getD 0 +
    match parts.steps.getLast? with
    | none => 0
    | some (finalStep, index) =>
      (parts.steps.dropLast.map fun (step, index) => addLValueStepArrayCounts step index).sum +
        match finalStep.kind with
        | .field => 0
        | .index =>
          index.getD 0 +
            if statement.target.receiverType.kind = .map then 0
            else setCounts statement.target.receiverType

def addForInArrayCounts : ArrayOpcodeCounts :=
  parts.iterable.getD 0 + parts.rangeUpper.getD 0 + (blockArrayCounts parts.body).1 +
    if statement.rangeUpper.isNone && statement.iterableKind = some .array then
      getCounts ((statement.iterable.map (·.inferredType)).getD invalidType)
    else 0

def addStatementArrayCounts : ArrayOpcodeCounts × Bool :=
  match statement.kind with
  | .let => (parts.initializer.getD 0, true)
  | .assign => (addAssignmentArrayCounts statement parts, true)
  | .if =>
    let thenCounts := blockArrayCounts parts.thenBranch
    let elseCounts := blockArrayCounts parts.elseBranch
    (parts.condition.getD 0 + thenCounts.1 + elseCounts.1, thenCounts.2 || elseCounts.2)
  | .while =>
    (parts.condition.getD 0 + (blockArrayCounts parts.body).1,
      !statement.conditionIsTrueLiteral ||
        (blockFallthroughAndCurrentBreak statement.body statement.loopLabel).2)
  | .forIn => (addForInArrayCounts statement parts, true)
  | .match =>
    let arms := parts.matchArms.map fun arm => blockArrayCounts arm.2
    (parts.condition.getD 0 + (arms.map Prod.fst).sum, arms.any Prod.snd)
  | .tryCatch =>
    let tryCounts := blockArrayCounts parts.body
    let catchCounts := blockArrayCounts parts.catchBody
    (tryCounts.1 + catchCounts.1, tryCounts.2 || catchCounts.2)
  | .throw | .tailCall => (parts.value.getD 0, false)
  | .break | .continue => (0, false)
  | .print => (parts.value.getD 0, true)
  | .ephemeronSet => (parts.initializer.getD 0 + parts.value.getD 0, true)
  | .builderAppend | .builderClear => (parts.initializer.getD 0 + parts.arguments.sum, true)

end Expected

/-- The audit as a pass over the tree. It goes into the bodies of lambdas. -/
def arrayAudit :
    TreeAlgebra ArrayOpcodeCounts ArrayOpcodeCounts (ArrayOpcodeCounts × Bool) where
  expr := addExprArrayCounts
  lambda _ parts := bodyArrayCounts parts.statements parts.result
  statement := addStatementArrayCounts

def expectedBodyCounts (statements : List Statement) (result : Option Expr) : ArrayOpcodeCounts :=
  bodyArrayCounts (statements.map (Statement.fold arrayAudit)) (result.map (Expr.fold arrayAudit))

def expectedArrayOpcodeCounts (program : Program) : ArrayOpcodeCounts :=
  expectedBodyCounts program.statements program.result +
    (program.functions.map fun function =>
      expectedBodyCounts function.statements function.result).sum

/-! ## Actual opcodes -/

def opCodeCounts : OpCode → ArrayOpcodeCounts
  | .allocArray => { allocScalar := 1 }
  | .allocRefArray => { allocRef := 1 }
  | .arrayGet => { getScalar := 1 }
  | .refArrayGet => { getRef := 1 }
  | .arraySet => { setScalar := 1 }
  | .refArraySet => { setRef := 1 }
  | _ => 0

def codeArrayCounts (code : List Instruction) : ArrayOpcodeCounts :=
  (code.map fun instruction => opCodeCounts instruction.op).sum

def actualArrayOpcodeCounts (module : Module) : ArrayOpcodeCounts :=
  (module.functions.map fun function => codeArrayCounts function.code).sum

end LanguageRuntime.Frontend
