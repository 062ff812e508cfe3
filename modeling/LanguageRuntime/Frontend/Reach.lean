import LanguageRuntime.Frontend.Audit
import Mathlib.Algebra.Group.Prod
import Mathlib.Tactic.Abel

/-!
# What the audit and the compiler reach

A pass that counts array opcodes charges every construct for its own opcodes and goes on to the
parts it visits. The audit and the compiler visit the same parts and charge the same; they differ
in which statements they take to fall through, and in that the compiler leaves lambdas to
functions of their own. `strays` are the opcodes that only one of them comes to.
-/

namespace LanguageRuntime.Frontend

open Bytecode

variable {E L S : Type}

/-! ## Fall through in the compiler -/

/-- What the compiler makes of a statement: as `auditFlow`, but a `break` without a label is one
of the innermost loop only, and a loop hides a label that it has itself. -/
def compilerFlow (statement : Statement) (parts : StatementParts Unit Flow) : Flow :=
  fun label unlabeled =>
    let flowOf := blockFlow label unlabeled
    let insideLoop := blockFlow (if statement.loopLabel = label then "" else label) false
    match statement.kind with
    | .break =>
      (false, if statement.loopControlLabel.isEmpty then unlabeled
        else statement.loopControlLabel = label)
    | .continue | .throw | .tailCall => (false, false)
    | .if =>
      let thenFlow := flowOf parts.thenBranch
      let elseFlow := flowOf parts.elseBranch
      (thenFlow.1 || elseFlow.1, thenFlow.2 || elseFlow.2)
    | .match =>
      let flows := parts.matchArms.map fun arm => flowOf arm.2
      (flows.any Prod.fst, flows.any Prod.snd)
    | .tryCatch =>
      let tryFlow := flowOf parts.body
      let catchFlow := flowOf parts.catchBody
      (tryFlow.1 || catchFlow.1, tryFlow.2 || catchFlow.2)
    | .while =>
      (!statement.conditionIsTrueLiteral || (blockFlow statement.loopLabel true parts.body).2,
        (insideLoop parts.body).2)
    | .forIn => (true, (insideLoop parts.body).2)
    | .let | .assign | .print | .ephemeronSet | .builderAppend | .builderClear => (true, false)

def compilerFlows : TreeAlgebra Unit Unit Flow where
  expr _ _ := ()
  lambda _ _ := ()
  statement := compilerFlow

/-! ## The parts a pass visits -/

/-- A list that is kept or dropped. -/
def keep {α : Type} (kept : Bool) (l : List α) : List α := if kept then l else []

@[simp] theorem keep_true {α : Type} (l : List α) : keep true l = l := rfl

@[simp] theorem keep_false {α : Type} (l : List α) : keep false l = [] := rfl

@[simp] theorem keep_nil {α : Type} (kept : Bool) : keep kept ([] : List α) = [] := by
  cases kept <;> rfl

theorem map_keep {α β : Type} (kept : Bool) (f : α → β) (l : List α) :
    (keep kept l).map f = keep kept (l.map f) := by
  cases kept <;> rfl

section Visits

variable (expression : Expr)

def Expr.visitsLeft : Bool :=
  expression.kind ∈ [Expr.Kind.pairLiteral, .binary, .ephemeronConstruct, .arraySized,
    .arrayIndex, .mapHas]

def Expr.visitsRight : Bool :=
  expression.kind ∈ [Expr.Kind.pairLiteral, .binary, .ephemeronConstruct, .arraySized]

def Expr.visitsReceiver : Bool :=
  expression.kind ∈ [Expr.Kind.arrayIndex, .strSub, .strContains, .strIndexOf, .strStartsWith,
    .strEndsWith, .arrayLen, .field, .isNil, .weakConstruct, .weakGet, .ephemeronKey,
    .ephemeronValue, .builderToStr, .toStr, .toI64, .intern, .mapHas] ||
  (expression.kind = .call && !expression.directCall)

def Expr.visitsArguments : Bool :=
  expression.kind ∈ [Expr.Kind.recordLiteral, .variantLiteral, .abs, .min, .max, .arrayLiteral,
    .strSub, .strContains, .strIndexOf, .strStartsWith, .strEndsWith, .call]

/-- The parts of an expression that are visited (`visits`) or that are not. -/
def Expr.visited (visits : Bool) (parts : ExprParts E L) : List E :=
  keep (expression.visitsLeft == visits) parts.left.toList ++
    keep (expression.visitsRight == visits) parts.right.toList ++
    keep (expression.visitsReceiver == visits) parts.receiver.toList ++
    keep (expression.visitsArguments == visits) parts.arguments

/-- The opcodes of an expression without those of its parts. -/
def Expr.ownCounts : ArrayOpcodeCounts :=
  match expression.kind with
  | .arrayLiteral =>
    if isRefArrayType expression.inferredType then
      { allocRef := 1, setRef := expression.arguments.length - 1 }
    else { allocScalar := 1, setScalar := expression.arguments.length - 1 }
  | .arraySized =>
    if isScalarArrayElementType expression.arrayElementType then { allocScalar := 1 }
    else { allocRef := 1 }
  | .arrayIndex =>
    if expression.receiverKind = some .str || expression.receiverKind = some .map then 0
    else getCounts ((expression.receiver.map (·.inferredType)).getD invalidType)
  | _ => 0

variable (statement : Statement)

/-- The parts of a statement that are expressions and are visited (`visits`) or are not. -/
def Statement.visited (visits : Bool) (parts : StatementParts E S) : List E :=
  let keptIn (kinds : List Statement.Kind) (l : List E) := keep (decide (statement.kind ∈ kinds) == visits) l
  keptIn [.let, .ephemeronSet, .builderAppend, .builderClear] parts.initializer.toList ++
    parts.steps.flatMap (fun step =>
      keep ((statement.kind = .assign && step.1.kind = .index) == visits) step.2.toList) ++
    keptIn [.assign, .throw, .tailCall, .print, .ephemeronSet] parts.value.toList ++
    keptIn [.builderAppend, .builderClear] parts.arguments ++
    keptIn [.if, .while, .match] parts.condition.toList ++
    keptIn [.forIn] parts.iterable.toList ++
    keptIn [.forIn] parts.rangeUpper.toList

/-- The blocks of a statement that are visited (`visits`) or are not. -/
def Statement.blocks (visits : Bool) (parts : StatementParts E S) : List (List S) :=
  let keptIn (kinds : List Statement.Kind) (l : List (List S)) :=
    keep (decide (statement.kind ∈ kinds) == visits) l
  keptIn [.if] [parts.thenBranch, parts.elseBranch] ++
    keptIn [.while, .forIn, .tryCatch] [parts.body] ++
    keptIn [.match] (parts.matchArms.map Prod.snd) ++
    keptIn [.tryCatch] [parts.catchBody]

/-- The load or store of a step of a target that is an index. -/
def stepCounts (access : TypeSpec → ArrayOpcodeCounts) (step : LValueStep)
    (receiverType : TypeSpec) : ArrayOpcodeCounts :=
  if step.kind = .index && receiverType.kind ≠ .map then access receiverType else 0

/-- The opcodes of a statement without those of its parts. -/
def Statement.ownCounts : ArrayOpcodeCounts :=
  match statement.kind with
  | .assign =>
    (statement.target.steps.dropLast.map fun step =>
      stepCounts getCounts step step.receiverType).sum +
      (statement.target.steps.getLast?.map fun step =>
        stepCounts setCounts step statement.target.receiverType).getD 0
  | .forIn =>
    if statement.rangeUpper.isNone && statement.iterableKind = some .array then
      getCounts ((statement.iterable.map (·.inferredType)).getD invalidType)
    else 0
  | _ => 0

/-- The load of a loop over a container that has elements and is neither an array nor a map. The
checker lets none through. -/
def Statement.unauditedLoad : ArrayOpcodeCounts :=
  match statement.iterable.bind (·.inferredType.element) with
  | none => 0
  | some elementType =>
    if statement.kind = .forIn && statement.rangeUpper.isNone &&
        statement.iterableKind ≠ some .map && statement.iterableKind ≠ some .array then
      if isScalarArrayElementType elementType then { getScalar := 1 } else { getRef := 1 }
    else 0

end Visits

/-! ## Counting what is reached -/

section Counting

/-- The counts of a statement by itself and of what is visited in it. -/
def Statement.reachedCounts (statement : Statement) (own : ArrayOpcodeCounts)
    (parts : StatementParts ArrayOpcodeCounts (ArrayOpcodeCounts × Bool)) : ArrayOpcodeCounts :=
  own + (statement.visited true parts).sum +
    ((statement.blocks true parts).map fun block => (blockArrayCounts block).1).sum

/-- The opcodes the compiler emits. -/
def emission : TreeAlgebra ArrayOpcodeCounts Unit (ArrayOpcodeCounts × Bool) where
  expr expression parts := expression.ownCounts + (expression.visited true parts).sum
  lambda _ _ := ()
  statement statement parts :=
    (statement.reachedCounts (statement.ownCounts + statement.unauditedLoad) parts,
      (statement.fold compilerFlows "" true).1)

def emittedBodyCounts (statements : List Statement) (result : Option Expr) : ArrayOpcodeCounts :=
  bodyArrayCounts (statements.map (Statement.fold emission)) (result.map (Expr.fold emission))

def LambdaExpr.emittedCounts (lambda : LambdaExpr) : ArrayOpcodeCounts :=
  emittedBodyCounts lambda.statements lambda.result

end Counting

/-! ## Strays -/

/-- Counts of opcodes that the audit counts and the compiler does not emit, and of those that the
compiler emits and the audit does not count. -/
abbrev Strays := ArrayOpcodeCounts × ArrayOpcodeCounts

/-- A number of opcodes that counts under a condition. -/
def gate (reached : Bool) (counts : ArrayOpcodeCounts) : ArrayOpcodeCounts :=
  if reached then counts else 0

/-- The strays among opcodes in one place, which the audit reaches or not and the compiler reaches
or not. -/
def ownStrays (audited emitted : Bool) (counts : ArrayOpcodeCounts) : Strays :=
  (gate (audited && !emitted) counts, gate (emitted && !audited) counts)

/-- What is said of a statement: whether it falls through for the audit and for the compiler, and
its strays where the audit reaches it or not and the compiler reaches it or not. -/
structure StatementStrays where
  auditFalls : Bool
  compilerFalls : Bool
  strays : Bool → Bool → Strays

/-- The strays of a block, and whether its end is reached. -/
def blockStrays (audited emitted : Bool) : List StatementStrays → Strays × Bool × Bool
  | [] => (0, audited, emitted)
  | statement :: statements =>
    let rest := blockStrays (audited && statement.auditFalls)
      (emitted && statement.compilerFalls) statements
    (statement.strays audited emitted + rest.1, rest.2)

def bodyStrays (audited emitted : Bool) (statements : List StatementStrays)
    (result : Option (Bool → Bool → Strays)) : Strays :=
  let block := blockStrays audited emitted statements
  block.1 + (result.map fun result => result block.2.1 block.2.2).getD 0

/-- Finds the opcodes that only the audit or only the compiler comes to. Nothing comes to the parts
that are not visited; the function of a lambda is compiled wherever the lambda stands. -/
def strayAnalysis :
    TreeAlgebra (Bool → Bool → Strays) (Bool → Strays) StatementStrays where
  expr expression parts audited emitted :=
    ownStrays audited emitted expression.ownCounts +
      ((expression.visited true parts).map fun part => part audited emitted).sum +
      ((expression.visited false parts).map fun part => part false false).sum +
      (parts.lambda.map fun lambda => lambda (audited && expression.kind = .lambda)).getD 0
  lambda _ parts audited := bodyStrays audited true parts.statements parts.result
  statement statement parts := {
    auditFalls := (statement.fold auditFlows "" true).1
    compilerFalls := (statement.fold compilerFlows "" true).1
    strays := fun audited emitted =>
      ownStrays audited emitted statement.ownCounts + (0, gate emitted statement.unauditedLoad) +
        ((statement.visited true parts).map fun part => part audited emitted).sum +
        ((statement.visited false parts).map fun part => part false false).sum +
        ((statement.blocks true parts).map fun block => (blockStrays audited emitted block).1).sum +
        ((statement.blocks false parts).map fun block => (blockStrays false false block).1).sum }

def functionStrays (statements : List Statement) (result : Option Expr) : Strays :=
  bodyStrays true true (statements.map (Statement.fold strayAnalysis))
    (result.map (Expr.fold strayAnalysis))

/-- The strays of a program. -/
def Program.strays (program : Program) : Strays :=
  functionStrays program.statements program.result +
    (program.functions.map fun function =>
      functionStrays function.statements function.result).sum

end LanguageRuntime.Frontend
