import LanguageRuntime.Frontend.Parser

/-!
# The depth of a syntax tree

How deeply types, expressions and statements are nested: what a function that recurses over
the tree needs of the stack. Lists, and the parts of a node that are not nodes, take the
depth of their deepest element.
-/

namespace LanguageRuntime.Frontend

class Deep (α : Type) where
  depth : α → ℕ

export Deep (depth)

section Containers

variable {α β : Type} [Deep α] [Deep β]

def depthOption : Option α → ℕ
  | none => 0
  | some a => depth a

def depthList : List α → ℕ
  | [] => 0
  | a :: as => max (depth a) (depthList as)

instance : Deep (Option α) := ⟨depthOption⟩

instance : Deep (List α) := ⟨depthList⟩

instance : Deep (α × β) := ⟨fun x => max (depth x.1) (depth x.2)⟩

@[simp] theorem depth_none : depth (none : Option α) = 0 := rfl

@[simp] theorem depth_some (a : α) : depth (some a) = depth a := rfl

@[simp] theorem depth_nil : depth ([] : List α) = 0 := rfl

@[simp] theorem depth_cons (a : α) (as : List α) : depth (a :: as) = max (depth a) (depth as) :=
  rfl

@[simp] theorem depth_pair (a : α) (b : β) : depth (a, b) = max (depth a) (depth b) := rfl

@[simp] theorem depth_append (as bs : List α) : depth (as ++ bs) = max (depth as) (depth bs) := by
  induction as with
  | nil => simp
  | cons a as ih => simp [ih, Nat.max_assoc]

end Containers

instance : Deep Unit := ⟨fun _ => 0⟩

instance : Deep Token := ⟨fun _ => 0⟩

@[simp] theorem depth_unit (u : Unit) : depth u = 0 := rfl

@[simp] theorem depth_token (token : Token) : depth token = 0 := rfl

/-! ## Types -/

mutual

def TypeSpec.depth : TypeSpec → ℕ
  | { left, right, element, key, value, weakTarget, functionParameters, functionReturn,
      genericArguments, .. } =>
    1 + max (depthTypeOption left) (max (depthTypeOption right) (max (depthTypeOption element)
      (max (depthTypeOption key) (max (depthTypeOption value) (max (depthTypeOption weakTarget)
        (max (depthTypes functionParameters) (max (depthTypeOption functionReturn)
          (depthTypes genericArguments))))))))

def depthTypeOption : Option TypeSpec → ℕ
  | none => 0
  | some type => type.depth

def depthTypes : List TypeSpec → ℕ
  | [] => 0
  | type :: types => max type.depth (depthTypes types)

end

instance : Deep TypeSpec := ⟨TypeSpec.depth⟩

/-! ## Expressions and statements -/

instance : Deep Parameter := ⟨fun parameter => depth parameter.type⟩

instance : Deep CaptureSpec := ⟨fun capture => depth capture.type⟩

mutual

def Expr.depth : Expr → ℕ
  | { left, right, receiver, arrayElementType, mapKeyType, mapValueType, arguments,
      explicitTypeArguments, inferredType, lambda, .. } =>
    1 + max (depthExprOption left) (max (depthExprOption right) (max (depthExprOption receiver)
      (max arrayElementType.depth (max mapKeyType.depth (max mapValueType.depth
        (max (depthExprs arguments) (max (depthTypes explicitTypeArguments)
          (max inferredType.depth (depthLambdaOption lambda)))))))))

def depthExprOption : Option Expr → ℕ
  | none => 0
  | some expr => expr.depth

def depthExprs : List Expr → ℕ
  | [] => 0
  | expr :: exprs => max expr.depth (depthExprs exprs)

def LambdaExpr.depth : LambdaExpr → ℕ
  | { parameters, returnType, statements, result, captures, .. } =>
    1 + max (depthList parameters) (max returnType.depth (max (depthStatements statements)
      (max (depthExprOption result) (depthList captures))))

def depthLambdaOption : Option LambdaExpr → ℕ
  | none => 0
  | some lambda => lambda.depth

def LValueStep.depth : LValueStep → ℕ
  | { index, receiverType, elementType, .. } =>
    max (depthExprOption index) (max receiverType.depth elementType.depth)

def depthSteps : List LValueStep → ℕ
  | [] => 0
  | step :: steps => max step.depth (depthSteps steps)

def LValue.depth : LValue → ℕ
  | { steps, receiverType, elementType, .. } =>
    max (depthSteps steps) (max receiverType.depth elementType.depth)

def MatchArm.depth : MatchArm → ℕ
  | { body, .. } => depthStatements body

def depthArms : List MatchArm → ℕ
  | [] => 0
  | arm :: arms => max arm.depth (depthArms arms)

def Statement.depth : Statement → ℕ
  | { declaredType, initializer, target, value, arguments, condition, thenBranch, elseBranch,
      body, iterable, rangeUpper, matchArms, catchBody, catchType, .. } =>
    1 + max declaredType.depth (max (depthExprOption initializer) (max target.depth
      (max (depthExprOption value) (max (depthExprs arguments) (max (depthExprOption condition)
        (max (depthStatements thenBranch) (max (depthStatements elseBranch)
          (max (depthStatements body) (max (depthExprOption iterable)
            (max (depthExprOption rangeUpper) (max (depthArms matchArms)
              (max (depthStatements catchBody) catchType.depth))))))))))))

def depthStatements : List Statement → ℕ
  | [] => 0
  | statement :: statements => max statement.depth (depthStatements statements)

end

instance : Deep Expr := ⟨Expr.depth⟩

instance : Deep LambdaExpr := ⟨LambdaExpr.depth⟩

instance : Deep LValueStep := ⟨LValueStep.depth⟩

instance : Deep LValue := ⟨LValue.depth⟩

instance : Deep MatchArm := ⟨MatchArm.depth⟩

instance : Deep Statement := ⟨Statement.depth⟩

/-! ## Declarations and programs -/

instance : Deep TypeDecl := ⟨fun declaration => depth declaration.body⟩

instance : Deep RecordFieldDecl := ⟨fun field => depth field.type⟩

instance : Deep RecordDecl := ⟨fun declaration => depth declaration.fields⟩

instance : Deep VariantCaseDecl := ⟨fun variantCase => depth variantCase.fields⟩

instance : Deep VariantDecl := ⟨fun declaration => depth declaration.cases⟩

instance : Deep FunctionDecl := ⟨fun declaration =>
  max (depth declaration.parameters) (max (depth declaration.returnType)
    (max (depth declaration.statements) (depth declaration.result)))⟩

/-- The depth of the deepest tree of a program's declarations. -/
def Program.declarationDepth (program : Program) : ℕ :=
  max (max (depth program.types) (depth program.genericTypes))
    (max (max (depth program.records) (depth program.genericRecords))
      (max (max (depth program.variants) (depth program.genericVariants))
        (max (depth program.functions) (depth program.genericFunctions))))

/-- The depth of the deepest tree of a program. -/
instance : Deep Program := ⟨fun program =>
  max program.declarationDepth (max (depth program.lambdas)
    (max (depth program.statements) (depth program.result)))⟩

end LanguageRuntime.Frontend
