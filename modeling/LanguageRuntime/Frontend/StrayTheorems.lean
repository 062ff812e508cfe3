import LanguageRuntime.Frontend.Reach

/-!
# The audit, the compiler and the strays

What the audit expects and the strays it misses are what the compiler emits, for the function and
for the lambdas in it, and the strays the audit counts in excess.
-/

namespace LanguageRuntime.Frontend

open Bytecode

variable {E L S : Type}

/-! ## Parts of a fold -/

section Naturality

variable (A : TreeAlgebra E L S) (expression : Expr) (statement : Statement) (visits : Bool)

/-- The parts of an expression themselves. -/
def Expr.rawParts : ExprParts Expr LambdaExpr where
  left := expression.left
  right := expression.right
  receiver := expression.receiver
  arguments := expression.arguments
  lambda := expression.lambda

/-- The parts of a statement themselves. -/
def Statement.rawParts : StatementParts Expr Statement where
  initializer := statement.initializer
  steps := statement.target.steps.map fun step => (step, step.index)
  value := statement.value
  arguments := statement.arguments
  condition := statement.condition
  thenBranch := statement.thenBranch
  elseBranch := statement.elseBranch
  body := statement.body
  iterable := statement.iterable
  rangeUpper := statement.rangeUpper
  matchArms := statement.matchArms.map fun arm => (arm, arm.body)
  catchBody := statement.catchBody

theorem toList_map {α β : Type} (f : α → β) (o : Option α) :
    (o.map f).toList = o.toList.map f := by
  cases o <;> rfl

theorem Expr.visited_parts : expression.visited visits (expression.parts A) =
    (expression.visited visits expression.rawParts).map (Expr.fold A) := by
  simp only [Expr.visited, Expr.parts, Expr.rawParts, toList_map, List.map_append, map_keep]

theorem Statement.visited_parts : statement.visited visits (statement.parts A) =
    (statement.visited visits statement.rawParts).map (Expr.fold A) := by
  simp only [Statement.visited, Statement.parts, Statement.rawParts, toList_map, List.map_append,
    map_keep, List.map_flatMap, List.flatMap_map]

theorem Statement.blocks_parts : statement.blocks visits (statement.parts A) =
    (statement.blocks visits statement.rawParts).map (List.map (Statement.fold A)) := by
  simp only [Statement.blocks, Statement.parts, Statement.rawParts, List.map_append, map_keep,
    List.map_cons, List.map_nil, List.map_map, Function.comp_def]

theorem mem_keep {α : Type} {kept : Bool} {l : List α} {a : α} (h : a ∈ keep kept l) : a ∈ l := by
  cases kept
  · exact nomatch h
  · exact h

variable {expression statement visits}

theorem Expr.mem_visited {part : Expr}
    (h : part ∈ expression.visited visits expression.rawParts) : part ∈ expression.children := by
  simp only [Expr.visited, Expr.rawParts, List.mem_append] at h
  simp only [Expr.children, List.mem_append]
  exact h.imp (Or.imp (Or.imp mem_keep mem_keep) mem_keep) mem_keep

theorem Statement.mem_visited {part : Expr}
    (h : part ∈ statement.visited visits statement.rawParts) : part ∈ statement.exprs := by
  simp only [Statement.visited, Statement.rawParts, List.mem_append, List.mem_flatMap] at h
  simp only [Statement.exprs, List.mem_append, List.mem_filterMap]
  refine h.imp (Or.imp (Or.imp (Or.imp (Or.imp (Or.imp mem_keep ?_) mem_keep) mem_keep) mem_keep)
    mem_keep) mem_keep
  rintro ⟨pair, hpair, hmem⟩
  obtain ⟨step, hstep, rfl⟩ := List.mem_map.mp hpair
  exact ⟨step, hstep, Option.mem_toList.mp (mem_keep hmem)⟩

theorem Statement.mem_blocks {block : List Statement} {part : Statement}
    (h : block ∈ statement.blocks visits statement.rawParts) (hpart : part ∈ block) :
    part ∈ statement.children := by
  simp only [Statement.blocks, Statement.rawParts, List.mem_append] at h
  simp only [Statement.children, List.mem_append, List.mem_flatMap]
  rcases h with ((hif | hbody) | harms) | hcatch
  · rcases List.mem_pair.mp (mem_keep hif) with rfl | rfl
    · exact .inl (.inl (.inl (.inl hpart)))
    · exact .inl (.inl (.inl (.inr hpart)))
  · rw [List.mem_singleton.mp (mem_keep hbody)] at hpart
    exact .inl (.inl (.inr hpart))
  · obtain ⟨arm, harm, rfl⟩ := List.mem_map.mp (mem_keep harms)
    obtain ⟨arm', harm', rfl⟩ := List.mem_map.mp harm
    exact .inl (.inr ⟨arm', harm', hpart⟩)
  · rw [List.mem_singleton.mp (mem_keep hcatch)] at hpart
    exact .inr hpart

end Naturality

/-! ## The audit counts what is reached -/

section Audit

theorem sum_toList (o : Option ArrayOpcodeCounts) : o.toList.sum = o.getD 0 := by
  cases o with
  | none => rfl
  | some counts => exact List.sum_singleton

theorem addExprArrayCounts_eq (expression : Expr)
    (parts : ExprParts ArrayOpcodeCounts ArrayOpcodeCounts)
    (hlength : parts.arguments.length = expression.arguments.length) :
    addExprArrayCounts expression parts = expression.ownCounts + (expression.visited true parts).sum +
      if expression.kind = .lambda then parts.lambda.getD 0 else 0 := by
  unfold addExprArrayCounts Expr.ownCounts Expr.visited Expr.visitsLeft Expr.visitsRight
    Expr.visitsReceiver Expr.visitsArguments
  cases hkind : expression.kind
  case call =>
    cases hdirect : expression.directCall
    case false =>
      simp [sum_toList]
      abel
    case true => simp
  all_goals
    simp [hlength, sum_toList]
  all_goals abel

theorem sum_dropLast_getLast? {α : Type} (f : α → ArrayOpcodeCounts) (l : List α) :
    (l.map f).sum = (l.dropLast.map f).sum + (l.getLast?.map f).getD 0 := by
  rcases List.eq_nil_or_concat l with rfl | ⟨l, a, rfl⟩
  · rfl
  · simp

theorem addAssignmentArrayCounts_eq (statement : Statement)
    (parts : StatementParts ArrayOpcodeCounts (ArrayOpcodeCounts × Bool))
    (hkind : statement.kind = .assign)
    (hsteps : parts.steps.map Prod.fst = statement.target.steps) :
    addAssignmentArrayCounts statement parts =
      statement.reachedCounts statement.ownCounts parts := by
  have hindices : (parts.steps.flatMap fun step =>
      keep (decide (step.1.kind = .index)) step.2.toList).sum =
      (parts.steps.map fun step =>
        if step.1.kind = .index then step.2.getD 0 else 0).sum := by
    induction parts.steps with
    | nil => rfl
    | cons step steps ih =>
      rw [List.flatMap_cons, List.sum_append, ih, List.map_cons, List.sum_cons]
      by_cases hindex : step.1.kind = .index <;> simp [hindex, sum_toList]
  have hinit : (parts.steps.dropLast.map fun step =>
      addLValueStepArrayCounts step.1 step.2).sum =
      (parts.steps.dropLast.map fun step =>
        if step.1.kind = .index then step.2.getD 0 else 0).sum +
        (statement.target.steps.dropLast.map fun step =>
          stepCounts getCounts step step.receiverType).sum := by
    rw [← hsteps, ← List.map_dropLast, List.map_map, ← List.sum_map_add]
    congr 1
    refine List.map_congr_left fun step _ => ?_
    unfold addLValueStepArrayCounts
    cases hstep : step.1.kind <;> simp [stepCounts, hstep]
  have hlast : statement.target.steps.getLast? = parts.steps.getLast?.map Prod.fst := by
    rw [← hsteps, List.getLast?_map]
  have hvisited : statement.visited true parts = (parts.steps.flatMap fun step =>
      keep (decide (step.1.kind = .index)) step.2.toList) ++ parts.value.toList := by
    simp [Statement.visited, hkind]
  have hblocks : statement.blocks true parts = [] := by
    simp [Statement.blocks, hkind]
  have hsum := sum_dropLast_getLast? (fun step : LValueStep × Option ArrayOpcodeCounts =>
    if step.1.kind = .index then step.2.getD 0 else 0) parts.steps
  unfold addAssignmentArrayCounts Statement.reachedCounts Statement.ownCounts
  rw [hvisited, hblocks, List.sum_append, hindices, hsum, sum_toList, hlast, hinit]
  simp only [hkind]
  cases hfinal : parts.steps.getLast? with
  | none =>
    have hnil : parts.steps = [] := List.getLast?_eq_none_iff.mp hfinal
    have hempty : statement.target.steps = [] := by rw [← hsteps, hnil, List.map_nil]
    simp [hnil, hempty]
  | some final =>
    obtain ⟨step, index⟩ := final
    cases hstep : step.kind
    case field =>
      simp [stepCounts, hstep]
      abel
    case index =>
      simp [stepCounts, hstep]
      abel

theorem addStatementArrayCounts_eq (statement : Statement)
    (parts : StatementParts ArrayOpcodeCounts (ArrayOpcodeCounts × Bool))
    (hsteps : parts.steps.map Prod.fst = statement.target.steps) :
    (addStatementArrayCounts statement parts).1 =
      statement.reachedCounts statement.ownCounts parts := by
  cases hkind : statement.kind
  case assign =>
    rw [← addAssignmentArrayCounts_eq statement parts hkind hsteps]
    simp only [addStatementArrayCounts, hkind]
  all_goals
    have hnone : (parts.steps.flatMap fun _ => ([] : List ArrayOpcodeCounts)) = [] := by
      simp
    unfold addStatementArrayCounts Statement.reachedCounts Statement.ownCounts Statement.visited
      Statement.blocks
    simp [hkind, sum_toList, hnone, addForInArrayCounts, Function.comp_def]
  all_goals abel

end Audit

/-! ## Fall through -/

section Falls

theorem blockFlow_fst (label : String) (unlabeled : Bool) (flows : List Flow) :
    (blockFlow label unlabeled flows).1 = flows.all fun flow => (flow label unlabeled).1 := by
  induction flows with
  | nil => rfl
  | cons flow flows ih =>
    rw [List.all_cons, ← ih, blockFlow]
    obtain ⟨falls, hasBreak⟩ := flow label unlabeled
    cases falls <;> rfl

theorem blockArrayCounts_snd (statements : List (ArrayOpcodeCounts × Bool)) :
    (blockArrayCounts statements).2 = statements.all Prod.snd := by
  induction statements with
  | nil => rfl
  | cons statement statements ih =>
    rw [List.all_cons, ← ih, blockArrayCounts]
    obtain ⟨counts, falls⟩ := statement
    cases falls <;> rfl

/-- Statements that fall through alike make blocks that do. -/
theorem all_map_congr {α β γ : Type} {f : α → β} {g : α → γ} {p : β → Bool} {q : γ → Bool}
    {l : List α} (h : ∀ a ∈ l, p (f a) = q (g a)) : (l.map f).all p = (l.map g).all q := by
  induction l with
  | nil => rfl
  | cons a l ih =>
    simp only [List.map_cons, List.all_cons, h a List.mem_cons_self,
      ih fun a' ha' => h a' (List.mem_cons_of_mem _ ha')]

theorem any_map_congr {α β γ : Type} {f : α → β} {g : α → γ} {p : β → Bool} {q : γ → Bool}
    {l : List α} (h : ∀ a ∈ l, p (f a) = q (g a)) : (l.map f).any p = (l.map g).any q := by
  induction l with
  | nil => rfl
  | cons a l ih =>
    simp only [List.map_cons, List.any_cons, h a List.mem_cons_self,
      ih fun a' ha' => h a' (List.mem_cons_of_mem _ ha')]

variable {statement part : Statement}

theorem Statement.mem_children_then (h : part ∈ statement.thenBranch) :
    part ∈ statement.children := by
  simp [Statement.children, h]

theorem Statement.mem_children_else (h : part ∈ statement.elseBranch) :
    part ∈ statement.children := by
  simp [Statement.children, h]

theorem Statement.mem_children_body (h : part ∈ statement.body) : part ∈ statement.children := by
  simp [Statement.children, h]

theorem Statement.mem_children_catch (h : part ∈ statement.catchBody) :
    part ∈ statement.children := by
  simp [Statement.children, h]

theorem Statement.mem_children_arm {arm : MatchArm} (harm : arm ∈ statement.matchArms)
    (h : part ∈ arm.body) : part ∈ statement.children := by
  simp only [Statement.children, List.mem_append, List.mem_flatMap]
  exact .inl (.inr ⟨arm, harm, h⟩)

/-- The audit's two passes take the same statements to fall through. -/
theorem fold_auditFlows_fst (statement : Statement) : ∀ label unlabeled,
    (statement.fold auditFlows label unlabeled).1 = (statement.fold arrayAudit).2 := by
  induction statement using Statement.induction with
  | step statement ih =>
    intro label unlabeled
    have hblock : ∀ block : List Statement, (∀ part ∈ block, part ∈ statement.children) →
        (blockFlow label unlabeled (block.map (Statement.fold auditFlows))).1 =
          (blockArrayCounts (block.map (Statement.fold arrayAudit))).2 := by
      intro block hparts
      rw [blockFlow_fst, blockArrayCounts_snd]
      exact all_map_congr fun part hpart => ih part (hparts part hpart) label unlabeled
    rw [Statement.fold_eq, Statement.fold_eq]
    show (auditFlow statement _ label unlabeled).1 = (addStatementArrayCounts statement _).2
    unfold auditFlow addStatementArrayCounts
    cases statement.kind
    case «if» =>
      simp only [Statement.parts, hblock _ fun _ => Statement.mem_children_then,
        hblock _ fun _ => Statement.mem_children_else]
    case «match» =>
      simp only [Statement.parts, List.map_map]
      exact any_map_congr fun arm harm => hblock arm.body fun _ => Statement.mem_children_arm harm
    case tryCatch =>
      simp only [Statement.parts, hblock _ fun _ => Statement.mem_children_body,
        hblock _ fun _ => Statement.mem_children_catch]
    case «while» => rfl
    all_goals rfl

/-- Whether a statement falls through for the compiler does not depend on the loop one asks
about. -/
theorem fold_compilerFlows_fst (statement : Statement) : ∀ label unlabeled,
    (statement.fold compilerFlows label unlabeled).1 =
      (statement.fold compilerFlows "" true).1 := by
  induction statement using Statement.induction with
  | step statement ih =>
    intro label unlabeled
    have hblock : ∀ block : List Statement, (∀ part ∈ block, part ∈ statement.children) →
        (blockFlow label unlabeled (block.map (Statement.fold compilerFlows))).1 =
          (blockFlow "" true (block.map (Statement.fold compilerFlows))).1 := by
      intro block hparts
      rw [blockFlow_fst, blockFlow_fst]
      exact all_map_congr fun part hpart => ih part (hparts part hpart) label unlabeled
    rw [Statement.fold_eq]
    show (compilerFlow statement _ label unlabeled).1 = (compilerFlow statement _ "" true).1
    unfold compilerFlow
    cases statement.kind
    case «if» =>
      simp only [Statement.parts, hblock _ fun _ => Statement.mem_children_then,
        hblock _ fun _ => Statement.mem_children_else]
    case «match» =>
      simp only [Statement.parts, List.map_map]
      exact any_map_congr fun arm harm => hblock arm.body fun _ => Statement.mem_children_arm harm
    case tryCatch =>
      simp only [Statement.parts, hblock _ fun _ => Statement.mem_children_body,
        hblock _ fun _ => Statement.mem_children_catch]
    all_goals rfl

end Falls

/-! ## The balance -/

/-- What is audited and the strays that are only emitted make up what is emitted, in place and in
lambdas, and the strays that are only audited. -/
def Balanced (audited emitted lambdas : ArrayOpcodeCounts) (strays : Strays) : Prop :=
  audited + strays.2 = emitted + lambdas + strays.1

section Balance

variable {audited audited' emitted emitted' lambdas lambdas' : ArrayOpcodeCounts}
  {strays strays' : Strays}

theorem Balanced.zero : Balanced 0 0 0 0 := rfl

theorem Balanced.add (h : Balanced audited emitted lambdas strays)
    (h' : Balanced audited' emitted' lambdas' strays') :
    Balanced (audited + audited') (emitted + emitted') (lambdas + lambdas')
      (strays + strays') := by
  unfold Balanced at h h' ⊢
  rw [Prod.snd_add, Prod.fst_add, add_add_add_comm, h, h']
  abel

theorem Balanced.sum {α : Type} {l : List α} {f g k : α → ArrayOpcodeCounts} {s : α → Strays}
    (h : ∀ a ∈ l, Balanced (f a) (g a) (k a) (s a)) :
    Balanced (l.map f).sum (l.map g).sum (l.map k).sum (l.map s).sum := by
  induction l with
  | nil => exact Balanced.zero
  | cons a l ih =>
    simp only [List.map_cons, List.sum_cons]
    exact (h a List.mem_cons_self).add (ih fun a' ha' => h a' (List.mem_cons_of_mem _ ha'))

@[simp] theorem gate_true (counts : ArrayOpcodeCounts) : gate true counts = counts := rfl

@[simp] theorem gate_false (counts : ArrayOpcodeCounts) : gate false counts = 0 := rfl

theorem gate_add (reached : Bool) (m n : ArrayOpcodeCounts) :
    gate reached (m + n) = gate reached m + gate reached n := by
  cases reached
  · exact (add_zero 0).symm
  · rfl

theorem gate_sum (reached : Bool) (l : List ArrayOpcodeCounts) :
    gate reached l.sum = (l.map (gate reached)).sum := by
  induction l with
  | nil => cases reached <;> rfl
  | cons counts l ih => rw [List.sum_cons, gate_add, ih, List.map_cons, List.sum_cons]

theorem balanced_ownStrays (audited emitted : Bool) (counts : ArrayOpcodeCounts) :
    Balanced (gate audited counts) (gate emitted counts) 0 (ownStrays audited emitted counts) := by
  cases audited <;> cases emitted <;> simp [Balanced, ownStrays]

/-! ### Lambdas -/

/-- The opcodes of the functions of some lambdas. -/
def lambdaCounts (lambdas : List LambdaExpr) : ArrayOpcodeCounts :=
  (lambdas.map LambdaExpr.emittedCounts).sum

@[simp] theorem lambdaCounts_nil : lambdaCounts [] = 0 := rfl

@[simp] theorem lambdaCounts_append (lambdas lambdas' : List LambdaExpr) :
    lambdaCounts (lambdas ++ lambdas') = lambdaCounts lambdas + lambdaCounts lambdas' := by
  simp [lambdaCounts]

/-- The opcodes of the functions of the lambdas in an expression. -/
def Expr.lambdaCounts (expression : Expr) : ArrayOpcodeCounts :=
  Frontend.lambdaCounts (expression.fold lambdaCollection)

def Statement.lambdaCounts (statement : Statement) : ArrayOpcodeCounts :=
  Frontend.lambdaCounts (statement.fold lambdaCollection)

def LambdaExpr.lambdaCounts (lambda : LambdaExpr) : ArrayOpcodeCounts :=
  Frontend.lambdaCounts (lambda.fold lambdaCollection)

section Collected

variable (expressions : List Expr) (expression : Option Expr) (statements : List Statement)

theorem lambdaCounts_exprs :
    lambdaCounts (expressions.map (Expr.fold lambdaCollection)).flatten =
      (expressions.map Expr.lambdaCounts).sum := by
  induction expressions with
  | nil => rfl
  | cons expression expressions ih =>
    rw [List.map_cons, List.flatten_cons, lambdaCounts_append, ih, List.map_cons, List.sum_cons]
    rfl

theorem lambdaCounts_statements :
    lambdaCounts (statements.map (Statement.fold lambdaCollection)).flatten =
      (statements.map Statement.lambdaCounts).sum := by
  induction statements with
  | nil => rfl
  | cons statement statements ih =>
    rw [List.map_cons, List.flatten_cons, lambdaCounts_append, ih, List.map_cons, List.sum_cons]
    rfl

theorem lambdaCounts_option :
    lambdaCounts ((expression.map (Expr.fold lambdaCollection)).getD []) =
      (expression.toList.map Expr.lambdaCounts).sum := by
  cases expression with
  | none => rfl
  | some expression =>
    rw [Option.toList_some, List.map_singleton, List.sum_singleton]
    rfl

theorem lambdaCounts_steps (steps : List LValueStep) :
    lambdaCounts ((steps.map fun step =>
      (step, step.index.map (Expr.fold lambdaCollection))).flatMap fun step => step.2.getD []) =
      ((steps.filterMap (·.index)).map Expr.lambdaCounts).sum := by
  induction steps with
  | nil => rfl
  | cons step steps ih =>
    rw [List.map_cons, List.flatMap_cons, lambdaCounts_append, ih, lambdaCounts_option]
    cases hindex : step.index <;> simp [hindex]

theorem lambdaCounts_arms (arms : List MatchArm) :
    lambdaCounts ((arms.map fun arm =>
      (arm, arm.body.map (Statement.fold lambdaCollection))).flatMap fun arm => arm.2.flatten) =
      ((arms.flatMap (·.body)).map Statement.lambdaCounts).sum := by
  induction arms with
  | nil => rfl
  | cons arm arms ih =>
    rw [List.map_cons, List.flatMap_cons, lambdaCounts_append, ih, lambdaCounts_statements,
      List.flatMap_cons, List.map_append, List.sum_append]

end Collected

theorem Expr.lambdaCounts_eq (expression : Expr) : expression.lambdaCounts =
    (expression.children.map Expr.lambdaCounts).sum +
      (expression.lambda.map LambdaExpr.lambdaCounts).getD 0 := by
  have hlambda : Frontend.lambdaCounts
      ((expression.lambda.map (LambdaExpr.fold lambdaCollection)).getD []) =
      (expression.lambda.map LambdaExpr.lambdaCounts).getD 0 := by
    cases expression.lambda <;> rfl
  rw [Expr.lambdaCounts, Expr.fold_eq]
  show Frontend.lambdaCounts (_ ++ _ ++ _ ++ _ ++ _) = _
  simp only [Expr.parts, lambdaCounts_append, lambdaCounts_option, lambdaCounts_exprs, hlambda,
    Expr.children, List.map_append, List.sum_append]

theorem LambdaExpr.lambdaCounts_eq (lambda : LambdaExpr) : lambda.lambdaCounts =
    (lambda.statements.map Statement.lambdaCounts).sum +
      (lambda.result.toList.map Expr.lambdaCounts).sum + lambda.emittedCounts := by
  have hself : Frontend.lambdaCounts [lambda] = lambda.emittedCounts := List.sum_singleton
  rw [LambdaExpr.lambdaCounts, LambdaExpr.fold_eq]
  show Frontend.lambdaCounts (_ ++ _ ++ [lambda]) = _
  simp only [LambdaExpr.parts, lambdaCounts_append, lambdaCounts_option, lambdaCounts_statements,
    hself]

theorem Statement.lambdaCounts_eq (statement : Statement) : statement.lambdaCounts =
    (statement.exprs.map Expr.lambdaCounts).sum +
      (statement.children.map Statement.lambdaCounts).sum := by
  rw [Statement.lambdaCounts, Statement.fold_eq]
  show Frontend.lambdaCounts (_ ++ _ ++ _ ++ _ ++ _ ++ _ ++ _ ++ _ ++ _ ++ _ ++ _ ++ _) = _
  simp only [Statement.parts, lambdaCounts_append, lambdaCounts_option, lambdaCounts_exprs,
    lambdaCounts_statements, lambdaCounts_steps, lambdaCounts_arms, Statement.exprs,
    Statement.children, List.map_append, List.sum_append]
  abel

/-! ### The parts of a node -/

theorem sum_keep {α M : Type} [AddCommMonoid M] (kept : Bool) (f : α → M) (l : List α) :
    ((keep (kept == true) l).map f).sum + ((keep (kept == false) l).map f).sum = (l.map f).sum := by
  cases kept <;> simp

theorem Expr.sum_visited (expression : Expr) (f : Expr → ArrayOpcodeCounts) :
    ((expression.visited true expression.rawParts).map f).sum +
      ((expression.visited false expression.rawParts).map f).sum =
      (expression.children.map f).sum := by
  simp only [Expr.visited, Expr.children, Expr.rawParts, List.map_append, List.sum_append,
    ← sum_keep expression.visitsLeft f expression.left.toList,
    ← sum_keep expression.visitsRight f expression.right.toList,
    ← sum_keep expression.visitsReceiver f expression.receiver.toList,
    ← sum_keep expression.visitsArguments f expression.arguments]
  abel

theorem Statement.sum_visited (statement : Statement) (f : Expr → ArrayOpcodeCounts) :
    ((statement.visited true statement.rawParts).map f).sum +
      ((statement.visited false statement.rawParts).map f).sum =
      (statement.exprs.map f).sum := by
  have hsteps : ∀ steps : List LValueStep, (((steps.map fun step => (step, step.index)).flatMap
      fun step => keep ((statement.kind = .assign && step.1.kind = .index) == true)
        step.2.toList).map f).sum +
      (((steps.map fun step => (step, step.index)).flatMap fun step =>
        keep ((statement.kind = .assign && step.1.kind = .index) == false)
          step.2.toList).map f).sum = ((steps.filterMap (·.index)).map f).sum := by
    intro steps
    induction steps with
    | nil => rfl
    | cons step steps ih =>
      have hstep := sum_keep (statement.kind = .assign && step.kind = .index) f step.index.toList
      have hindex : ((step :: steps).filterMap (·.index)).map f =
          step.index.toList.map f ++ (steps.filterMap (·.index)).map f := by
        cases hindex : step.index <;> simp [hindex]
      rw [hindex, List.sum_append, ← ih, ← hstep]
      simp only [List.map_cons, List.flatMap_cons, List.map_append, List.sum_append]
      abel
  simp only [Statement.visited, Statement.exprs, Statement.rawParts, List.map_append,
    List.sum_append, ← hsteps]
  rw [← sum_keep (decide (statement.kind ∈ [.let, .ephemeronSet, .builderAppend, .builderClear])) f
      statement.initializer.toList,
    ← sum_keep (decide (statement.kind ∈ [.assign, .throw, .tailCall, .print, .ephemeronSet])) f
      statement.value.toList,
    ← sum_keep (decide (statement.kind ∈ [.builderAppend, .builderClear])) f statement.arguments,
    ← sum_keep (decide (statement.kind ∈ [.if, .while, .match])) f statement.condition.toList,
    ← sum_keep (decide (statement.kind ∈ [.forIn])) f statement.iterable.toList,
    ← sum_keep (decide (statement.kind ∈ [.forIn])) f statement.rangeUpper.toList]
  abel

theorem Statement.sum_blocks (statement : Statement) (f : Statement → ArrayOpcodeCounts) :
    ((statement.blocks true statement.rawParts).map fun block => (block.map f).sum).sum +
      ((statement.blocks false statement.rawParts).map fun block => (block.map f).sum).sum =
      (statement.children.map f).sum := by
  have harms : ∀ arms : List MatchArm, (((arms.map fun arm => (arm, arm.body)).map Prod.snd).map
      fun block => (block.map f).sum).sum = ((arms.flatMap (·.body)).map f).sum := by
    intro arms
    induction arms with
    | nil => rfl
    | cons arm arms ih =>
      rw [List.flatMap_cons, List.map_append, List.sum_append, ← ih]
      rfl
  have hpair : ∀ block block' : List Statement,
      ([block, block'].map fun block => (block.map f).sum).sum =
        (block.map f).sum + (block'.map f).sum := by
    intro block block'
    simp
  have hsingle : ∀ block : List Statement,
      ([block].map fun block => (block.map f).sum).sum = (block.map f).sum := by
    intro block
    simp
  simp only [Statement.blocks, Statement.children, Statement.rawParts, List.map_append,
    List.sum_append, ← harms, ← hpair]
  rw [← hsingle statement.body, ← hsingle statement.catchBody,
    ← sum_keep (decide (statement.kind ∈ [.if])) _ [statement.thenBranch, statement.elseBranch],
    ← sum_keep (decide (statement.kind ∈ [.while, .forIn, .tryCatch])) _ [statement.body],
    ← sum_keep (decide (statement.kind ∈ [.match])) _
      ((statement.matchArms.map fun arm => (arm, arm.body)).map Prod.snd),
    ← sum_keep (decide (statement.kind ∈ [.tryCatch])) _ [statement.catchBody]]
  abel

/-! ### The balance of a tree -/

def Expr.Balances (expression : Expr) : Prop := ∀ audited emitted,
  Balanced (gate audited (expression.fold arrayAudit)) (gate emitted (expression.fold emission))
    expression.lambdaCounts (expression.fold strayAnalysis audited emitted)

/-- The opcodes in a lambda's body are emitted for its own function. -/
def LambdaExpr.Balances (lambda : LambdaExpr) : Prop := ∀ audited,
  Balanced (gate audited (lambda.fold arrayAudit)) 0 lambda.lambdaCounts
    (lambda.fold strayAnalysis audited)

def Statement.Balances (statement : Statement) : Prop := ∀ audited emitted,
  Balanced (gate audited (statement.fold arrayAudit).1)
    (gate emitted (statement.fold emission).1) statement.lambdaCounts
    ((statement.fold strayAnalysis).strays audited emitted)

theorem balanced_exprs (expressions : List Expr) (h : ∀ part ∈ expressions, part.Balances)
    (audited emitted : Bool) :
    Balanced (gate audited (expressions.map (Expr.fold arrayAudit)).sum)
      (gate emitted (expressions.map (Expr.fold emission)).sum)
      (expressions.map Expr.lambdaCounts).sum
      ((expressions.map (Expr.fold strayAnalysis)).map fun part => part audited emitted).sum := by
  rw [gate_sum, gate_sum, List.map_map, List.map_map, List.map_map]
  exact Balanced.sum fun part hpart => h part hpart audited emitted

/-- The balance of a block, and where its end is reached. -/
theorem balanced_block {statements : List Statement} (h : ∀ part ∈ statements, part.Balances)
    (audited emitted : Bool) :
    Balanced (gate audited (blockArrayCounts (statements.map (Statement.fold arrayAudit))).1)
      (gate emitted (blockArrayCounts (statements.map (Statement.fold emission))).1)
      (statements.map Statement.lambdaCounts).sum
      (blockStrays audited emitted (statements.map (Statement.fold strayAnalysis))).1 ∧
    (blockStrays audited emitted (statements.map (Statement.fold strayAnalysis))).2 =
      (audited && (blockArrayCounts (statements.map (Statement.fold arrayAudit))).2,
        emitted && (blockArrayCounts (statements.map (Statement.fold emission))).2) := by
  induction statements generalizing audited emitted with
  | nil =>
    refine ⟨?_, ?_⟩
    · cases audited <;> cases emitted <;> exact Balanced.zero
    · cases audited <;> cases emitted <;> rfl
  | cons statement statements ih =>
    have hself := h statement List.mem_cons_self audited emitted
    have hrest := ih (fun part hpart => h part (List.mem_cons_of_mem _ hpart))
      (audited && (statement.fold arrayAudit).2) (emitted && (statement.fold emission).2)
    -- a block goes on where its first statement falls through
    have hgate : ∀ (reached : Bool) (first : ArrayOpcodeCounts × Bool) (rest : List _),
        gate reached (blockArrayCounts (first :: rest)).1 =
          gate reached first.1 + gate (reached && first.2) (blockArrayCounts rest).1 ∧
        (reached && (blockArrayCounts (first :: rest)).2) =
          (reached && first.2 && (blockArrayCounts rest).2) := by
      intro reached first rest
      obtain ⟨counts, falls⟩ := first
      cases reached <;> cases falls <;> simp [blockArrayCounts]
    have hfalls : (statement.fold strayAnalysis).auditFalls = (statement.fold arrayAudit).2 ∧
        (statement.fold strayAnalysis).compilerFalls = (statement.fold emission).2 := by
      rw [← fold_auditFlows_fst statement "" true, Statement.fold_eq strayAnalysis,
        Statement.fold_eq emission]
      exact ⟨rfl, rfl⟩
    simp only [List.map_cons, List.sum_cons, blockStrays, hfalls]
    rw [(hgate audited _ _).1, (hgate emitted _ _).1, (hgate audited _ _).2, (hgate emitted _ _).2]
    exact ⟨hself.add hrest.1, hrest.2⟩

theorem balanced_blocks (blocks : List (List Statement))
    (h : ∀ block ∈ blocks, ∀ part ∈ block, part.Balances) (audited emitted : Bool) :
    Balanced
      (gate audited ((blocks.map (List.map (Statement.fold arrayAudit))).map
        fun block => (blockArrayCounts block).1).sum)
      (gate emitted ((blocks.map (List.map (Statement.fold emission))).map
        fun block => (blockArrayCounts block).1).sum)
      ((blocks.map fun block => (block.map Statement.lambdaCounts).sum).sum)
      ((blocks.map (List.map (Statement.fold strayAnalysis))).map
        fun block => (blockStrays audited emitted block).1).sum := by
  rw [gate_sum, gate_sum]
  simp only [List.map_map, Function.comp_def]
  exact Balanced.sum fun block hblock => (balanced_block (h block hblock) audited emitted).1

theorem balanced_body {statements : List Statement} {result : Option Expr}
    (hstatements : ∀ part ∈ statements, part.Balances) (hresult : ∀ part ∈ result, part.Balances)
    (audited emitted : Bool) :
    Balanced (gate audited (expectedBodyCounts statements result))
      (gate emitted (emittedBodyCounts statements result))
      ((statements.map Statement.lambdaCounts).sum +
        (result.toList.map Expr.lambdaCounts).sum)
      (bodyStrays audited emitted (statements.map (Statement.fold strayAnalysis))
        (result.map (Expr.fold strayAnalysis))) := by
  obtain ⟨hblock, hend⟩ := balanced_block hstatements audited emitted
  have hgate : ∀ (reached : Bool) (block : List (ArrayOpcodeCounts × Bool))
      (result : Option ArrayOpcodeCounts), gate reached (bodyArrayCounts block result) =
        gate reached (blockArrayCounts block).1 +
          gate (reached && (blockArrayCounts block).2) (result.getD 0) := by
    intro reached block result
    rw [bodyArrayCounts]
    cases reached <;> cases (blockArrayCounts block).2 <;> simp
  unfold expectedBodyCounts emittedBodyCounts bodyStrays
  dsimp only
  rw [hgate, hgate, hend]
  apply hblock.add
  cases result with
  | none => cases audited <;> cases emitted <;> simp [Balanced, gate]
  | some result =>
    simp only [Option.map_some, Option.getD_some, Option.toList_some, List.map_singleton,
      List.sum_singleton]
    exact hresult result rfl _ _

theorem balances_expr (expression : Expr) (hchildren : ∀ part ∈ expression.children, part.Balances)
    (hlambda : ∀ lambda ∈ expression.lambda, lambda.Balances) : expression.Balances := by
  intro audited emitted
  have hvisited := balanced_exprs (expression.visited true expression.rawParts)
    (fun part hpart => hchildren part (Expr.mem_visited hpart)) audited emitted
  have hskipped := balanced_exprs (expression.visited false expression.rawParts)
    (fun part hpart => hchildren part (Expr.mem_visited hpart)) false false
  have hown := balanced_ownStrays audited emitted expression.ownCounts
  have hbody : Balanced
      (gate audited (if expression.kind = .lambda then
        (expression.lambda.map (LambdaExpr.fold arrayAudit)).getD 0 else 0)) 0
      ((expression.lambda.map LambdaExpr.lambdaCounts).getD 0)
      (((expression.lambda.map (LambdaExpr.fold strayAnalysis)).map fun lambda =>
        lambda (audited && expression.kind = .lambda)).getD 0) := by
    cases hcase : expression.lambda with
    | none => cases audited <;> simp [Balanced, gate]
    | some lambda =>
      have h := hlambda lambda hcase (audited && expression.kind = .lambda)
      simp only [Option.map_some, Option.getD_some]
      by_cases hkind : expression.kind = .lambda
      · simpa [hkind] using h
      · simpa [hkind, gate] using h
  have haudit : expression.fold arrayAudit = expression.ownCounts +
      ((expression.visited true expression.rawParts).map (Expr.fold arrayAudit)).sum +
      if expression.kind = .lambda then
        (expression.lambda.map (LambdaExpr.fold arrayAudit)).getD 0 else 0 := by
    rw [Expr.fold_eq, ← Expr.visited_parts]
    exact addExprArrayCounts_eq expression _ (List.length_map _)
  have hemission : expression.fold emission = expression.ownCounts +
      ((expression.visited true expression.rawParts).map (Expr.fold emission)).sum := by
    rw [Expr.fold_eq, ← Expr.visited_parts]
    rfl
  have hstrays : expression.fold strayAnalysis audited emitted =
      ownStrays audited emitted expression.ownCounts +
      (((expression.visited true expression.rawParts).map (Expr.fold strayAnalysis)).map
        fun part => part audited emitted).sum +
      (((expression.visited false expression.rawParts).map (Expr.fold strayAnalysis)).map
        fun part => part false false).sum +
      ((expression.lambda.map (LambdaExpr.fold strayAnalysis)).map fun lambda =>
        lambda (audited && expression.kind = .lambda)).getD 0 := by
    rw [Expr.fold_eq, ← Expr.visited_parts, ← Expr.visited_parts]
    rfl
  rw [haudit, hemission, hstrays, Expr.lambdaCounts_eq, ← Expr.sum_visited, gate_add, gate_add,
    gate_add]
  have h := ((hown.add hvisited).add hskipped).add hbody
  simpa [gate_false] using h

theorem balances_lambda (lambda : LambdaExpr)
    (hstatements : ∀ statement ∈ lambda.statements, statement.Balances)
    (hresult : ∀ result ∈ lambda.result, result.Balances) : lambda.Balances := by
  intro audited
  have hbody := balanced_body hstatements hresult audited true
  have haudit : lambda.fold arrayAudit = expectedBodyCounts lambda.statements lambda.result := by
    rw [LambdaExpr.fold_eq]
    rfl
  have hstrays : lambda.fold strayAnalysis audited =
      bodyStrays audited true (lambda.statements.map (Statement.fold strayAnalysis))
        (lambda.result.map (Expr.fold strayAnalysis)) := by
    rw [LambdaExpr.fold_eq]
    rfl
  unfold Balanced at hbody ⊢
  rw [haudit, hstrays, hbody, LambdaExpr.lambdaCounts_eq, gate_true, LambdaExpr.emittedCounts]
  abel

theorem balances_statement (statement : Statement)
    (hexprs : ∀ part ∈ statement.exprs, part.Balances)
    (hchildren : ∀ part ∈ statement.children, part.Balances) : statement.Balances := by
  intro audited emitted
  have hvisited := balanced_exprs (statement.visited true statement.rawParts)
    (fun part hpart => hexprs part (Statement.mem_visited hpart)) audited emitted
  have hskipped := balanced_exprs (statement.visited false statement.rawParts)
    (fun part hpart => hexprs part (Statement.mem_visited hpart)) false false
  have hblocks := balanced_blocks (statement.blocks true statement.rawParts)
    (fun block hblock part hpart => hchildren part (Statement.mem_blocks hblock hpart))
    audited emitted
  have hskippedBlocks := balanced_blocks (statement.blocks false statement.rawParts)
    (fun block hblock part hpart => hchildren part (Statement.mem_blocks hblock hpart))
    false false
  have hown := balanced_ownStrays audited emitted statement.ownCounts
  have hload : Balanced 0 (gate emitted statement.unauditedLoad) 0
      (0, gate emitted statement.unauditedLoad) := by
    simp [Balanced]
  have haudit : (statement.fold arrayAudit).1 = statement.ownCounts +
      ((statement.visited true statement.rawParts).map (Expr.fold arrayAudit)).sum +
      (((statement.blocks true statement.rawParts).map (List.map (Statement.fold arrayAudit))).map
        fun block => (blockArrayCounts block).1).sum := by
    rw [Statement.fold_eq, ← Statement.visited_parts, ← Statement.blocks_parts]
    refine addStatementArrayCounts_eq statement _ ?_
    simp only [Statement.parts, List.map_map, Function.comp_def, List.map_id']
  have hemission : (statement.fold emission).1 = statement.ownCounts + statement.unauditedLoad +
      ((statement.visited true statement.rawParts).map (Expr.fold emission)).sum +
      (((statement.blocks true statement.rawParts).map (List.map (Statement.fold emission))).map
        fun block => (blockArrayCounts block).1).sum := by
    rw [Statement.fold_eq, ← Statement.visited_parts, ← Statement.blocks_parts]
    rfl
  have hstrays : (statement.fold strayAnalysis).strays audited emitted =
      ownStrays audited emitted statement.ownCounts + (0, gate emitted statement.unauditedLoad) +
      (((statement.visited true statement.rawParts).map (Expr.fold strayAnalysis)).map
        fun part => part audited emitted).sum +
      (((statement.visited false statement.rawParts).map (Expr.fold strayAnalysis)).map
        fun part => part false false).sum +
      (((statement.blocks true statement.rawParts).map
        (List.map (Statement.fold strayAnalysis))).map
          fun block => (blockStrays audited emitted block).1).sum +
      (((statement.blocks false statement.rawParts).map
        (List.map (Statement.fold strayAnalysis))).map
          fun block => (blockStrays false false block).1).sum := by
    rw [Statement.fold_eq, ← Statement.visited_parts, ← Statement.visited_parts,
      ← Statement.blocks_parts, ← Statement.blocks_parts]
    rfl
  have h := ((((hown.add hload).add hvisited).add hskipped).add hblocks).add hskippedBlocks
  rw [haudit, hemission, hstrays, Statement.lambdaCounts_eq, ← Statement.sum_visited,
    ← Statement.sum_blocks, gate_add, gate_add, gate_add, gate_add, gate_add]
  simpa [gate_false, add_assoc] using h

theorem treeStep_balances :
    TreeStep Expr.Balances LambdaExpr.Balances Statement.Balances where
  expr := balances_expr
  lambda := balances_lambda
  statement := balances_statement

theorem lambdaCounts_collectLambdas (statements : List Statement) (result : Option Expr) :
    lambdaCounts (collectLambdas statements result) =
      (statements.map Statement.lambdaCounts).sum + (result.toList.map Expr.lambdaCounts).sum := by
  rw [collectLambdas, lambdaCounts_append, lambdaCounts_option, ← lambdaCounts_statements,
    List.flatMap_def]

/-- The balance of a function and the lambdas in it. -/
theorem balanced_function (statements : List Statement) (result : Option Expr) :
    Balanced (expectedBodyCounts statements result) (emittedBodyCounts statements result)
      (lambdaCounts (collectLambdas statements result)) (functionStrays statements result) := by
  rw [lambdaCounts_collectLambdas]
  exact balanced_body (statementsInduction treeStep_balances statements)
    (exprOptionInduction treeStep_balances result) true true

/-- The opcodes the compiler emits for the functions and the entry of a program. -/
def Program.emittedCounts (program : Program) : ArrayOpcodeCounts :=
  emittedBodyCounts program.statements program.result +
    (program.functions.map fun function =>
      emittedBodyCounts function.statements function.result).sum

theorem balanced_program (program : Program) :
    Balanced (expectedArrayOpcodeCounts program) program.emittedCounts
      (lambdaCounts (recollectConcreteLambdas program)) program.strays := by
  have hfunctions := Balanced.sum (l := program.functions) fun function _ =>
    balanced_function function.statements function.result
  have hlambdas : lambdaCounts (recollectConcreteLambdas program) =
      lambdaCounts (collectLambdas program.statements program.result) +
        (program.functions.map fun function =>
          lambdaCounts (collectLambdas function.statements function.result)).sum := by
    rw [recollectConcreteLambdas, lambdaCounts_append, add_comm]
    congr 1
    induction program.functions with
    | nil => rfl
    | cons function functions ih =>
      rw [List.flatMap_cons, lambdaCounts_append, ih, List.map_cons, List.sum_cons]
  rw [hlambdas]
  exact (balanced_function program.statements program.result).add hfunctions

end Balance

end LanguageRuntime.Frontend
