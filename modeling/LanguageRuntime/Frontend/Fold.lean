import LanguageRuntime.Frontend.Syntax

/-!
# Folds over the syntax tree

The passes behind the type checker call themselves on the parts of a node and nowhere else. A
`TreeAlgebra` is such a pass without its recursion: what it does with a node, given what it has
done with the parts. `treeInduction` is the induction over a tree that goes with it.
-/

namespace LanguageRuntime.Frontend

variable {E L S : Type}

/-- What a pass has made of the parts of an expression. -/
structure ExprParts (E L : Type) where
  left : Option E := none
  right : Option E := none
  receiver : Option E := none
  arguments : List E := []
  lambda : Option L := none

structure LambdaParts (E S : Type) where
  statements : List S := []
  result : Option E := none

/-- What a pass has made of the parts of a statement: `steps` are the indices in its target. -/
structure StatementParts (E S : Type) where
  initializer : Option E := none
  steps : List (LValueStep × Option E) := []
  value : Option E := none
  arguments : List E := []
  condition : Option E := none
  thenBranch : List S := []
  elseBranch : List S := []
  body : List S := []
  iterable : Option E := none
  rangeUpper : Option E := none
  matchArms : List (MatchArm × List S) := []
  catchBody : List S := []

/-- The parts of an expression, each of them through `f`. -/
def ExprParts.map {E' : Type} (f : E → E') (parts : ExprParts E L) : ExprParts E' L where
  left := parts.left.map f
  right := parts.right.map f
  receiver := parts.receiver.map f
  arguments := parts.arguments.map f
  lambda := parts.lambda

/-- The parts of a statement, those that are expressions through `f`. -/
def StatementParts.map {E' : Type} (f : E → E') (parts : StatementParts E S) :
    StatementParts E' S where
  initializer := parts.initializer.map f
  steps := parts.steps.map fun (step, index) => (step, index.map f)
  value := parts.value.map f
  arguments := parts.arguments.map f
  condition := parts.condition.map f
  thenBranch := parts.thenBranch
  elseBranch := parts.elseBranch
  body := parts.body
  iterable := parts.iterable.map f
  rangeUpper := parts.rangeUpper.map f
  matchArms := parts.matchArms
  catchBody := parts.catchBody

structure TreeAlgebra (E L S : Type) where
  expr : Expr → ExprParts E L → E
  lambda : LambdaExpr → LambdaParts E S → L
  statement : Statement → StatementParts E S → S

/-! ## Folding -/

mutual

def Expr.fold (A : TreeAlgebra E L S) : Expr → E
  | expression@{ left, right, receiver, arguments, lambda, .. } =>
    A.expr expression
      { left := foldExprOption A left
        right := foldExprOption A right
        receiver := foldExprOption A receiver
        arguments := foldExprs A arguments
        lambda := foldLambdaOption A lambda }

def foldExprOption (A : TreeAlgebra E L S) : Option Expr → Option E
  | none => none
  | some expression => some (expression.fold A)

def foldExprs (A : TreeAlgebra E L S) : List Expr → List E
  | [] => []
  | expression :: expressions => expression.fold A :: foldExprs A expressions

def LambdaExpr.fold (A : TreeAlgebra E L S) : LambdaExpr → L
  | lambda@{ statements, result, .. } =>
    A.lambda lambda
      { statements := foldStatements A statements, result := foldExprOption A result }

def foldLambdaOption (A : TreeAlgebra E L S) : Option LambdaExpr → Option L
  | none => none
  | some lambda => some (lambda.fold A)

def LValueStep.fold (A : TreeAlgebra E L S) : LValueStep → LValueStep × Option E
  | step@{ index, .. } => (step, foldExprOption A index)

def foldSteps (A : TreeAlgebra E L S) : List LValueStep → List (LValueStep × Option E)
  | [] => []
  | step :: steps => step.fold A :: foldSteps A steps

def LValue.fold (A : TreeAlgebra E L S) : LValue → List (LValueStep × Option E)
  | { steps, .. } => foldSteps A steps

def MatchArm.fold (A : TreeAlgebra E L S) : MatchArm → MatchArm × List S
  | arm@{ body, .. } => (arm, foldStatements A body)

def foldArms (A : TreeAlgebra E L S) : List MatchArm → List (MatchArm × List S)
  | [] => []
  | arm :: arms => arm.fold A :: foldArms A arms

def Statement.fold (A : TreeAlgebra E L S) : Statement → S
  | statement@{ initializer, target, value, arguments, condition, thenBranch, elseBranch, body,
                iterable, rangeUpper, matchArms, catchBody, .. } =>
    A.statement statement
      { initializer := foldExprOption A initializer
        steps := target.fold A
        value := foldExprOption A value
        arguments := foldExprs A arguments
        condition := foldExprOption A condition
        thenBranch := foldStatements A thenBranch
        elseBranch := foldStatements A elseBranch
        body := foldStatements A body
        iterable := foldExprOption A iterable
        rangeUpper := foldExprOption A rangeUpper
        matchArms := foldArms A matchArms
        catchBody := foldStatements A catchBody }

def foldStatements (A : TreeAlgebra E L S) : List Statement → List S
  | [] => []
  | statement :: statements => statement.fold A :: foldStatements A statements

end

section Equations

variable (A : TreeAlgebra E L S)

theorem foldExprOption_eq (expression : Option Expr) :
    foldExprOption A expression = expression.map (Expr.fold A) := by
  cases expression <;> rfl

theorem foldLambdaOption_eq (lambda : Option LambdaExpr) :
    foldLambdaOption A lambda = lambda.map (LambdaExpr.fold A) := by
  cases lambda <;> rfl

theorem foldExprs_eq (expressions : List Expr) :
    foldExprs A expressions = expressions.map (Expr.fold A) := by
  induction expressions with
  | nil => rfl
  | cons expression expressions ih => exact congrArg (_ :: ·) ih

theorem foldStatements_eq (statements : List Statement) :
    foldStatements A statements = statements.map (Statement.fold A) := by
  induction statements with
  | nil => rfl
  | cons statement statements ih => exact congrArg (_ :: ·) ih

theorem foldSteps_eq (steps : List LValueStep) :
    foldSteps A steps = steps.map fun step => (step, step.index.map (Expr.fold A)) := by
  induction steps with
  | nil => rfl
  | cons step steps ih =>
    have hstep : step.fold A = (step, step.index.map (Expr.fold A)) := by
      cases step
      exact congrArg (Prod.mk _) (foldExprOption_eq A _)
    rw [List.map_cons, ← ih, ← hstep]
    rfl

theorem foldArms_eq (arms : List MatchArm) :
    foldArms A arms = arms.map fun arm => (arm, arm.body.map (Statement.fold A)) := by
  induction arms with
  | nil => rfl
  | cons arm arms ih =>
    have harm : arm.fold A = (arm, arm.body.map (Statement.fold A)) := by
      cases arm
      exact congrArg (Prod.mk _) (foldStatements_eq A _)
    rw [List.map_cons, ← ih, ← harm]
    rfl

/-- The parts of an expression after a pass. -/
def Expr.parts (expression : Expr) : ExprParts E L where
  left := expression.left.map (Expr.fold A)
  right := expression.right.map (Expr.fold A)
  receiver := expression.receiver.map (Expr.fold A)
  arguments := expression.arguments.map (Expr.fold A)
  lambda := expression.lambda.map (LambdaExpr.fold A)

def LambdaExpr.parts (lambda : LambdaExpr) : LambdaParts E S where
  statements := lambda.statements.map (Statement.fold A)
  result := lambda.result.map (Expr.fold A)

def Statement.parts (statement : Statement) : StatementParts E S where
  initializer := statement.initializer.map (Expr.fold A)
  steps := statement.target.steps.map fun step => (step, step.index.map (Expr.fold A))
  value := statement.value.map (Expr.fold A)
  arguments := statement.arguments.map (Expr.fold A)
  condition := statement.condition.map (Expr.fold A)
  thenBranch := statement.thenBranch.map (Statement.fold A)
  elseBranch := statement.elseBranch.map (Statement.fold A)
  body := statement.body.map (Statement.fold A)
  iterable := statement.iterable.map (Expr.fold A)
  rangeUpper := statement.rangeUpper.map (Expr.fold A)
  matchArms := statement.matchArms.map fun arm => (arm, arm.body.map (Statement.fold A))
  catchBody := statement.catchBody.map (Statement.fold A)

theorem Expr.fold_eq (expression : Expr) :
    expression.fold A = A.expr expression (expression.parts A) := by
  rw [Expr.parts, ← foldExprOption_eq, ← foldExprOption_eq, ← foldExprOption_eq, ← foldExprs_eq,
    ← foldLambdaOption_eq]
  cases expression
  rfl

theorem LambdaExpr.fold_eq (lambda : LambdaExpr) :
    lambda.fold A = A.lambda lambda (lambda.parts A) := by
  rw [LambdaExpr.parts, ← foldStatements_eq, ← foldExprOption_eq]
  cases lambda
  rfl

theorem Statement.fold_eq (statement : Statement) :
    statement.fold A = A.statement statement (statement.parts A) := by
  have htarget : statement.target.fold A = foldSteps A statement.target.steps := by
    cases statement.target
    rfl
  rw [Statement.parts, ← foldSteps_eq, ← foldArms_eq, ← htarget]
  simp only [← foldExprOption_eq, ← foldExprs_eq, ← foldStatements_eq]
  cases statement
  rfl

end Equations

/-! ## Induction -/

/-- The parts of an expression that are expressions. -/
def Expr.children (expression : Expr) : List Expr :=
  expression.left.toList ++ expression.right.toList ++ expression.receiver.toList ++
    expression.arguments

/-- The parts of a statement that are expressions. -/
def Statement.exprs (statement : Statement) : List Expr :=
  statement.initializer.toList ++ statement.target.steps.filterMap (·.index) ++
    statement.value.toList ++ statement.arguments ++ statement.condition.toList ++
    statement.iterable.toList ++ statement.rangeUpper.toList

/-- The parts of a statement that are statements. -/
def Statement.children (statement : Statement) : List Statement :=
  statement.thenBranch ++ statement.elseBranch ++ statement.body ++
    statement.matchArms.flatMap (·.body) ++ statement.catchBody

section Induction

/-- What holds of a node when it holds of its parts. -/
structure TreeStep (exprs : Expr → Prop) (lambdas : LambdaExpr → Prop)
    (stmts : Statement → Prop) : Prop where
  expr : ∀ expression, (∀ part ∈ expression.children, exprs part) →
    (∀ lambda ∈ expression.lambda, lambdas lambda) → exprs expression
  lambda : ∀ lambda, (∀ statement ∈ lambda.statements, stmts statement) →
    (∀ result ∈ lambda.result, exprs result) → lambdas lambda
  statement : ∀ statement, (∀ part ∈ statement.exprs, exprs part) →
    (∀ part ∈ statement.children, stmts part) → stmts statement

variable {exprs : Expr → Prop} {lambdas : LambdaExpr → Prop} {stmts : Statement → Prop}

mutual

theorem exprInduction (H : TreeStep exprs lambdas stmts) : ∀ expression : Expr, exprs expression
  | ⟨kind, position, operatorPosition, intValue, boolValue, stringValue, name, binaryOp, pairSite,
      calleeIndex, left, right, receiver, arrayElementType, mapKeyType, mapValueType, arguments,
      explicitTypeArguments, typeArgumentsPosition, fieldNames, fieldPositions, inferredType,
      objectSites, localIndex, closureLayoutIndex, captureIndex, isCapture, isFunctionReference,
      directCall, recordLayoutIndex, recordFieldIndex, variantLayoutIndex, variantCaseIndex,
      lambda⟩ => by
    apply H.expr
    case a =>
      intro part hpart
      simp only [Expr.children, List.mem_append, Option.mem_toList] at hpart
      rcases hpart with ((hleft | hright) | hreceiver) | hargument
      · exact exprOptionInduction H left part hleft
      · exact exprOptionInduction H right part hright
      · exact exprOptionInduction H receiver part hreceiver
      · exact exprsInduction H arguments part hargument
    case a => exact lambdaOptionInduction H lambda

theorem exprOptionInduction (H : TreeStep exprs lambdas stmts) :
    ∀ expression : Option Expr, ∀ part ∈ expression, exprs part
  | none, _, hpart => nomatch hpart
  | some expression, part, hpart => by
    rw [← Option.some.inj hpart]
    exact exprInduction H expression

theorem exprsInduction (H : TreeStep exprs lambdas stmts) :
    ∀ expressions : List Expr, ∀ part ∈ expressions, exprs part
  | [], _, hpart => nomatch hpart
  | expression :: expressions, part, hpart => by
    rcases List.mem_cons.mp hpart with heq | hpart
    · rw [heq]
      exact exprInduction H expression
    · exact exprsInduction H expressions part hpart

theorem lambdaInduction (H : TreeStep exprs lambdas stmts) : ∀ lambda : LambdaExpr, lambdas lambda
  | ⟨position, parameters, returnType, statements, result, captures, functionIndex,
      closureLayoutIndex, localCount⟩ =>
    H.lambda _ (statementsInduction H statements) (exprOptionInduction H result)

theorem lambdaOptionInduction (H : TreeStep exprs lambdas stmts) :
    ∀ lambda : Option LambdaExpr, ∀ part ∈ lambda, lambdas part
  | none, _, hpart => nomatch hpart
  | some lambda, part, hpart => by
    rw [← Option.some.inj hpart]
    exact lambdaInduction H lambda

theorem stepInduction (H : TreeStep exprs lambdas stmts) :
    ∀ step : LValueStep, ∀ part ∈ step.index, exprs part
  | ⟨_, _, _, index, _, _, _, _⟩ => exprOptionInduction H index

theorem stepsInduction (H : TreeStep exprs lambdas stmts) : ∀ steps : List LValueStep,
    ∀ step ∈ steps, ∀ part ∈ step.index, exprs part
  | [], _, hstep => nomatch hstep
  | step :: steps, step', hstep' => by
    rcases List.mem_cons.mp hstep' with heq | hstep'
    · rw [heq]
      exact stepInduction H step
    · exact stepsInduction H steps step' hstep'

theorem targetInduction (H : TreeStep exprs lambdas stmts) : ∀ target : LValue,
    ∀ step ∈ target.steps, ∀ part ∈ step.index, exprs part
  | ⟨_, _, _, steps, _, _⟩ => stepsInduction H steps

theorem armInduction (H : TreeStep exprs lambdas stmts) :
    ∀ arm : MatchArm, ∀ part ∈ arm.body, stmts part
  | ⟨_, _, _, body, _⟩ => statementsInduction H body

theorem armsInduction (H : TreeStep exprs lambdas stmts) :
    ∀ arms : List MatchArm, ∀ arm ∈ arms, ∀ part ∈ arm.body, stmts part
  | [], _, harm => nomatch harm
  | arm :: arms, arm', harm' => by
    rcases List.mem_cons.mp harm' with heq | harm'
    · rw [heq]
      exact armInduction H arm
    · exact armsInduction H arms arm' harm'

theorem statementInduction (H : TreeStep exprs lambdas stmts) :
    ∀ statement : Statement, stmts statement
  | ⟨kind, position, equalsPosition, name, declaredType, localIndex, initializer, target, value,
      arguments, condition, thenBranch, elseBranch, body, loopNames, loopNamePositions,
      loopLocalIndices, loopLabel, loopLabelPosition, loopControlLabel, loopControlLabelPosition,
      iterable, rangeUpper, loopLocalsAllocated, matchLocalsAllocated, matchArms,
      matchVariantLayoutIndex, catchBody, catchName, catchPosition, catchType, catchLocalIndex,
      catchLocalAllocated⟩ => by
    apply H.statement
    case a =>
      intro part hpart
      simp only [Statement.exprs, List.mem_append, Option.mem_toList, List.mem_filterMap] at hpart
      rcases hpart with (((((hpart | ⟨step, hstep, hpart⟩) | hpart) | hpart) | hpart) | hpart) |
        hpart
      · exact exprOptionInduction H initializer part hpart
      · exact targetInduction H target step hstep part hpart
      · exact exprOptionInduction H value part hpart
      · exact exprsInduction H arguments part hpart
      · exact exprOptionInduction H condition part hpart
      · exact exprOptionInduction H iterable part hpart
      · exact exprOptionInduction H rangeUpper part hpart
    case a =>
      intro part hpart
      simp only [Statement.children, List.mem_append, List.mem_flatMap] at hpart
      rcases hpart with (((hpart | hpart) | hpart) | ⟨arm, harm, hpart⟩) | hpart
      · exact statementsInduction H thenBranch part hpart
      · exact statementsInduction H elseBranch part hpart
      · exact statementsInduction H body part hpart
      · exact armsInduction H matchArms arm harm part hpart
      · exact statementsInduction H catchBody part hpart

theorem statementsInduction (H : TreeStep exprs lambdas stmts) :
    ∀ statements : List Statement, ∀ part ∈ statements, stmts part
  | [], _, hpart => nomatch hpart
  | statement :: statements, part, hpart => by
    rcases List.mem_cons.mp hpart with heq | hpart
    · rw [heq]
      exact statementInduction H statement
    · exact statementsInduction H statements part hpart

end

/-- Induction over the statements in a statement. -/
theorem Statement.induction {motive : Statement → Prop}
    (step : ∀ statement, (∀ part ∈ statement.children, motive part) → motive statement)
    (statement : Statement) : motive statement := by
  have htree : TreeStep (fun _ => True) (fun _ => True) motive :=
    { expr := fun _ _ _ => trivial
      lambda := fun _ _ _ => trivial
      statement := fun statement _ hparts => step statement hparts }
  exact statementInduction htree statement

end Induction

end LanguageRuntime.Frontend
