import LanguageRuntime.Frontend.Generics
import LanguageRuntime.Frontend.Traversal
import LanguageRuntime.Library.Wp

/-!
# Monomorphisation, proved

A clone is the template with its type parameters replaced, except for the four label fields
of a statement, which `clone_statement` does not copy: the clone equals the replaced
template exactly when the template has no loop label.
-/

namespace LanguageRuntime.Frontend

open LanguageRuntime.Library

variable {arguments : List TypeSpec}

/-! ## Substitution -/

mutual

/-- Within scope `substitute_type` replaces the parameters and does not throw. -/
theorem substituteType_eq_ok : ∀ type : TypeSpec, type.Scoped arguments.length →
    substituteType arguments type = .ok (type.replaced arguments)
  | { kind, left, right, element, key, value, weakTarget, functionParameters, functionReturn,
      typeParameterIndex, genericArguments, .. }, h => by
    rw [TypeSpec.Scoped] at h
    rw [substituteType, TypeSpec.replaced]
    by_cases hkind : kind = .typeParameter
    · rw [if_pos hkind] at h
      obtain ⟨index, hindex, rfl⟩ := h
      simp [hkind, List.getElem?_eq_getElem hindex, pure, Except.pure]
    · rw [if_neg hkind] at h
      obtain ⟨hleft, hright, helement, hkey, hvalue, htarget, hparameters, hreturn,
        harguments⟩ := h
      simp only [if_neg hkind, substituteTypeOption_eq_ok _ hleft,
        substituteTypeOption_eq_ok _ hright, substituteTypeOption_eq_ok _ helement,
        substituteTypeOption_eq_ok _ hkey, substituteTypeOption_eq_ok _ hvalue,
        substituteTypeOption_eq_ok _ htarget, substituteTypes_eq_ok _ hparameters,
        substituteTypeOption_eq_ok _ hreturn, substituteTypes_eq_ok _ harguments, ok_bind]
      rfl

theorem substituteTypeOption_eq_ok : ∀ type : Option TypeSpec,
    ScopedOption arguments.length type →
    substituteTypeOption arguments type = .ok (replacedOption arguments type)
  | none, _ => rfl
  | some type, h => by
    rw [substituteTypeOption, substituteType_eq_ok type h, ok_bind, replacedOption]
    rfl

theorem substituteTypes_eq_ok : ∀ types : List TypeSpec, ScopedList arguments.length types →
    substituteTypes arguments types = .ok (replacedList arguments types)
  | [], _ => rfl
  | type :: types, h => by
    rw [ScopedList] at h
    rw [substituteTypes, substituteType_eq_ok type h.1, ok_bind,
      substituteTypes_eq_ok types h.2, ok_bind, replacedList]
    rfl

end

theorem replacedList_eq_map (arguments types : List TypeSpec) :
    replacedList arguments types = types.map (TypeSpec.replaced arguments) := by
  induction types with
  | nil => rfl
  | cons type types ih => rw [replacedList, ih, List.map_cons]

theorem scopedList_iff {count : ℕ} {types : List TypeSpec} :
    ScopedList count types ↔ ∀ type ∈ types, type.Scoped count := by
  induction types with
  | nil => simp [ScopedList]
  | cons type types ih => rw [ScopedList, ih, List.forall_mem_cons]

theorem substituteTypes_eq_map {types : List TypeSpec}
    (h : ∀ type ∈ types, type.Scoped arguments.length) :
    substituteTypes arguments types = .ok (types.map (TypeSpec.replaced arguments)) := by
  rw [substituteTypes_eq_ok types (scopedList_iff.mpr h), replacedList_eq_map]

/-! ## The clone of a body -/

theorem cloneParameter_eq_ok {parameter : Parameter}
    (h : parameter.All (template arguments.length)) :
    cloneParameter arguments parameter =
      .ok (parameter.mapTypes (TypeSpec.replaced arguments)) := by
  have hindex : parameter.localIndex = 0 := h.1
  rw [cloneParameter, substituteType_eq_ok _ h.2, ok_bind, Parameter.mapTypes, hindex]
  rfl

theorem map_cloneMatchBinding {count : ℕ} {bindings : List MatchBinding}
    (h : ∀ binding ∈ bindings, (template count).binding binding) :
    bindings.map cloneMatchBinding = bindings := by
  conv_rhs => rw [← List.map_id bindings]
  apply List.map_congr_left
  intro binding hbinding
  have hindex : binding.localIndex = 0 := h binding hbinding
  rw [cloneMatchBinding, ← hindex]
  rfl

/-- The clone succeeds, and it is `copy` exactly when `clean` holds. -/
def ClonesTo {α : Type} (result : Except String α) (copy : α) (clean : Prop) : Prop :=
  ∃ clone, result = .ok clone ∧ (clone = copy ↔ clean)

theorem clonesTo_pure {α : Type} {clone copy : α} {clean : Prop} :
    ClonesTo (pure clone) copy clean ↔ (clone = copy ↔ clean) := by
  constructor
  · intro h
    obtain ⟨other, hother, h⟩ := h
    cases hother
    exact h
  · exact fun h => ⟨clone, rfl, h⟩

mutual

theorem cloneExpr_clonesTo : ∀ expr : Expr, expr.All (template arguments.length) →
    ClonesTo (cloneExpr arguments expr) (expr.mapTypes (TypeSpec.replaced arguments))
      (expr.All labelFree)
  | { left, right, receiver, arrayElementType, mapKeyType, mapValueType,
      arguments := callArguments, explicitTypeArguments, lambda, .. }, h => by
    rw [Expr.All] at h
    obtain ⟨hown, helement, hkey, hvalue, htypes, hleft, hright, hreceiver, harguments,
      hlambda⟩ := h
    obtain ⟨left', hleft', eleft⟩ := cloneExprOption_clonesTo left hleft
    obtain ⟨right', hright', eright⟩ := cloneExprOption_clonesTo right hright
    obtain ⟨receiver', hreceiver', ereceiver⟩ := cloneExprOption_clonesTo receiver hreceiver
    obtain ⟨arguments', harguments', earguments⟩ :=
      cloneExprs_clonesTo callArguments harguments
    obtain ⟨lambda', hlambda', elambda⟩ := cloneLambdaOption_clonesTo lambda hlambda
    simp only [template, Expr.Unchecked] at hown
    rw [cloneExpr, substituteType_eq_ok _ helement, ok_bind, substituteType_eq_ok _ hkey,
      ok_bind, substituteType_eq_ok _ hvalue, ok_bind, substituteTypes_eq_map htypes,
      ok_bind, hleft', ok_bind, hright', ok_bind, hreceiver', ok_bind, harguments',
      ok_bind, hlambda', ok_bind, clonesTo_pure]
    simp [Expr.mapTypes, Expr.All, ← eleft, ← eright, ← ereceiver,
        ← earguments, ← elambda, hown]

theorem cloneExprOption_clonesTo : ∀ expr : Option Expr,
    AllExprOption (template arguments.length) expr →
    ClonesTo (cloneExprOption arguments expr)
      (mapTypesExprOption (TypeSpec.replaced arguments) expr) (AllExprOption labelFree expr)
  | none, _ => ⟨none, rfl, by simp [mapTypesExprOption, AllExprOption]⟩
  | some expr, h => by
    obtain ⟨clone, hclone, heq⟩ := cloneExpr_clonesTo expr h
    refine ⟨some clone, ?_, ?_⟩
    · rw [cloneExprOption, hclone]
      rfl
    · rw [mapTypesExprOption, AllExprOption, Option.some.injEq, heq]

theorem cloneExprs_clonesTo : ∀ exprs : List Expr,
    AllExprs (template arguments.length) exprs →
    ClonesTo (cloneExprs arguments exprs)
      (mapTypesExprs (TypeSpec.replaced arguments) exprs) (AllExprs labelFree exprs)
  | [], _ => ⟨[], rfl, by simp [mapTypesExprs, AllExprs]⟩
  | expr :: exprs, h => by
    rw [AllExprs] at h
    obtain ⟨clone, hclone, heq⟩ := cloneExpr_clonesTo expr h.1
    obtain ⟨clones, hclones, heqs⟩ := cloneExprs_clonesTo exprs h.2
    refine ⟨clone :: clones, ?_, ?_⟩
    · rw [cloneExprs, hclone, ok_bind, hclones]
      rfl
    · rw [mapTypesExprs, AllExprs, List.cons.injEq, heq, heqs]

theorem cloneLambda_clonesTo : ∀ lambda : LambdaExpr,
    lambda.All (template arguments.length) →
    ClonesTo (cloneLambda arguments lambda)
      (lambda.mapTypes (TypeSpec.replaced arguments)) (lambda.All labelFree)
  | { parameters, returnType, statements, result, .. }, h => by
    rw [LambdaExpr.All] at h
    obtain ⟨hown, hparameters, hreturn, hstatements, hresult⟩ := h
    obtain ⟨statements', hstatements', estatements⟩ :=
      cloneStatements_clonesTo statements hstatements
    obtain ⟨result', hresult', eresult⟩ := cloneExprOption_clonesTo result hresult
    have hclones := mapM_eq_ok_map fun parameter hparameter =>
      cloneParameter_eq_ok (hparameters parameter hparameter)
    simp only [template, LambdaExpr.Unchecked] at hown
    rw [cloneLambda, hclones, ok_bind, substituteType_eq_ok _ hreturn, ok_bind,
      hstatements', ok_bind, hresult', ok_bind, clonesTo_pure]
    simp [LambdaExpr.mapTypes, LambdaExpr.All, Parameter.All, ← estatements,
        ← eresult, hown]

theorem cloneLambdaOption_clonesTo : ∀ lambda : Option LambdaExpr,
    AllLambdaOption (template arguments.length) lambda →
    ClonesTo (cloneLambdaOption arguments lambda)
      (mapTypesLambdaOption (TypeSpec.replaced arguments) lambda)
      (AllLambdaOption labelFree lambda)
  | none, _ => ⟨none, rfl, by simp [mapTypesLambdaOption, AllLambdaOption]⟩
  | some lambda, h => by
    obtain ⟨clone, hclone, heq⟩ := cloneLambda_clonesTo lambda h
    refine ⟨some clone, ?_, ?_⟩
    · rw [cloneLambdaOption, hclone]
      rfl
    · rw [mapTypesLambdaOption, AllLambdaOption, Option.some.injEq, heq]

theorem cloneLValueStep_clonesTo : ∀ step : LValueStep,
    step.All (template arguments.length) →
    ClonesTo (cloneLValueStep arguments step)
      (step.mapTypes (TypeSpec.replaced arguments)) (step.All labelFree)
  | { index, .. }, h => by
    rw [LValueStep.All] at h
    obtain ⟨hown, hindex⟩ := h
    obtain ⟨index', hindex', eindex⟩ := cloneExprOption_clonesTo index hindex
    simp only [template, LValueStep.Unchecked] at hown
    rw [cloneLValueStep, hindex', ok_bind, clonesTo_pure]
    simp [LValueStep.mapTypes, LValueStep.All, ← eindex, hown]

theorem cloneLValueSteps_clonesTo : ∀ steps : List LValueStep,
    AllLValueSteps (template arguments.length) steps →
    ClonesTo (cloneLValueSteps arguments steps)
      (mapTypesLValueSteps (TypeSpec.replaced arguments) steps)
      (AllLValueSteps labelFree steps)
  | [], _ => ⟨[], rfl, by simp [mapTypesLValueSteps, AllLValueSteps]⟩
  | step :: steps, h => by
    rw [AllLValueSteps] at h
    obtain ⟨clone, hclone, heq⟩ := cloneLValueStep_clonesTo step h.1
    obtain ⟨clones, hclones, heqs⟩ := cloneLValueSteps_clonesTo steps h.2
    refine ⟨clone :: clones, ?_, ?_⟩
    · rw [cloneLValueSteps, hclone, ok_bind, hclones]
      rfl
    · rw [mapTypesLValueSteps, AllLValueSteps, List.cons.injEq, heq, heqs]

theorem cloneLValue_clonesTo : ∀ target : LValue, target.All (template arguments.length) →
    ClonesTo (cloneLValue arguments target)
      (target.mapTypes (TypeSpec.replaced arguments)) (target.All labelFree)
  | { steps, .. }, h => by
    rw [LValue.All] at h
    obtain ⟨hown, hsteps⟩ := h
    obtain ⟨steps', hsteps', esteps⟩ := cloneLValueSteps_clonesTo steps hsteps
    simp only [template, LValue.Unchecked] at hown
    rw [cloneLValue, hsteps', ok_bind, clonesTo_pure]
    simp [LValue.mapTypes, LValue.All, ← esteps, hown]

theorem cloneMatchArm_clonesTo : ∀ arm : MatchArm, arm.All (template arguments.length) →
    ClonesTo (cloneMatchArm arguments arm)
      (arm.mapTypes (TypeSpec.replaced arguments)) (arm.All labelFree)
  | { bindings, body, .. }, h => by
    rw [MatchArm.All] at h
    obtain ⟨hown, hbindings, hbody⟩ := h
    obtain ⟨body', hbody', ebody⟩ := cloneStatements_clonesTo body hbody
    simp only [template] at hown
    rw [cloneMatchArm, hbody', ok_bind, map_cloneMatchBinding hbindings, clonesTo_pure]
    simp [MatchArm.mapTypes, MatchArm.All, ← ebody, hown]

theorem cloneMatchArms_clonesTo : ∀ arms : List MatchArm,
    AllMatchArms (template arguments.length) arms →
    ClonesTo (cloneMatchArms arguments arms)
      (mapTypesMatchArms (TypeSpec.replaced arguments) arms) (AllMatchArms labelFree arms)
  | [], _ => ⟨[], rfl, by simp [mapTypesMatchArms, AllMatchArms]⟩
  | arm :: arms, h => by
    rw [AllMatchArms] at h
    obtain ⟨clone, hclone, heq⟩ := cloneMatchArm_clonesTo arm h.1
    obtain ⟨clones, hclones, heqs⟩ := cloneMatchArms_clonesTo arms h.2
    refine ⟨clone :: clones, ?_, ?_⟩
    · rw [cloneMatchArms, hclone, ok_bind, hclones]
      rfl
    · rw [mapTypesMatchArms, AllMatchArms, List.cons.injEq, heq, heqs]

theorem cloneStatement_clonesTo : ∀ statement : Statement,
    statement.All (template arguments.length) →
    ClonesTo (cloneStatement arguments statement)
      (statement.mapTypes (TypeSpec.replaced arguments)) (statement.All labelFree)
  | { declaredType, initializer, target, value, arguments := callArguments, condition,
      thenBranch, elseBranch, body, iterable, rangeUpper, matchArms, catchBody, catchType,
      .. }, h => by
    rw [Statement.All] at h
    obtain ⟨hown, hdeclared, hinitializer, htarget, hvalue, harguments, hcondition, hthen,
      helse, hbody, hiterable, hupper, harms, hcatch, hcatchType⟩ := h
    obtain ⟨initializer', hinitializer', einitializer⟩ :=
      cloneExprOption_clonesTo initializer hinitializer
    obtain ⟨target', htarget', etarget⟩ := cloneLValue_clonesTo target htarget
    obtain ⟨value', hvalue', evalue⟩ := cloneExprOption_clonesTo value hvalue
    obtain ⟨arguments', harguments', earguments⟩ :=
      cloneExprs_clonesTo callArguments harguments
    obtain ⟨condition', hcondition', econdition⟩ :=
      cloneExprOption_clonesTo condition hcondition
    obtain ⟨then', hthen', ethen⟩ := cloneStatements_clonesTo thenBranch hthen
    obtain ⟨else', helse', eelse⟩ := cloneStatements_clonesTo elseBranch helse
    obtain ⟨body', hbody', ebody⟩ := cloneStatements_clonesTo body hbody
    obtain ⟨iterable', hiterable', eiterable⟩ := cloneExprOption_clonesTo iterable hiterable
    obtain ⟨upper', hupper', eupper⟩ := cloneExprOption_clonesTo rangeUpper hupper
    obtain ⟨arms', harms', earms⟩ := cloneMatchArms_clonesTo matchArms harms
    obtain ⟨catch', hcatch', ecatch⟩ := cloneStatements_clonesTo catchBody hcatch
    simp only [template, Statement.Unchecked] at hown
    rw [cloneStatement, substituteType_eq_ok _ hdeclared, ok_bind, hinitializer', ok_bind,
      htarget', ok_bind, hvalue', ok_bind, harguments', ok_bind, hcondition', ok_bind,
      hthen', ok_bind, helse', ok_bind, hbody', ok_bind, hiterable', ok_bind, hupper',
      ok_bind, harms', ok_bind, hcatch', ok_bind, substituteType_eq_ok _ hcatchType,
      ok_bind, clonesTo_pure]
    simp [Statement.mapTypes, Statement.All, Statement.LabelFree,
        ← einitializer, ← etarget, ← evalue, ← earguments, ← econdition, ← ethen, ← eelse,
        ← ebody, ← eiterable, ← eupper, ← earms, ← ecatch, hown]
    -- the two sides list the same equations, the labels' in different places
    grind

theorem cloneStatements_clonesTo : ∀ statements : List Statement,
    AllStatements (template arguments.length) statements →
    ClonesTo (cloneStatements arguments statements)
      (mapTypesStatements (TypeSpec.replaced arguments) statements)
      (AllStatements labelFree statements)
  | [], _ => ⟨[], rfl, by simp [mapTypesStatements, AllStatements]⟩
  | statement :: statements, h => by
    rw [AllStatements] at h
    obtain ⟨clone, hclone, heq⟩ := cloneStatement_clonesTo statement h.1
    obtain ⟨clones, hclones, heqs⟩ := cloneStatements_clonesTo statements h.2
    refine ⟨clone :: clones, ?_, ?_⟩
    · rw [cloneStatements, hclone, ok_bind, hclones]
      rfl
    · rw [mapTypesStatements, AllStatements, List.cons.injEq, heq, heqs]

end

/-! ## Keys -/

mutual

/-- A concrete type has a key. -/
theorem canonicalConcreteTypeKey_isOk : ∀ type : TypeSpec, type.Concrete →
    ∃ key, canonicalConcreteTypeKey type = .ok key
  | { kind, left, right, element, key, value, weakTarget, functionParameters, functionReturn,
      namedTypeIndex, recordLayoutIndex, variantLayoutIndex, .. }, h => by
    have hleft := componentKey_isOk left
    have hright := componentKey_isOk right
    have helement := componentKey_isOk element
    have hkey := componentKey_isOk key
    have hvalue := componentKey_isOk value
    have htarget := componentKey_isOk weakTarget
    have hreturn := componentKey_isOk functionReturn
    have hparameters := functionParameterKeys_isOk functionParameters
    cases kind with
    | int64 | bool | str | builder => exact ⟨_, rfl⟩
    | typeParameter | nil | invalid => exact h.elim
    | pair =>
      rw [TypeSpec.Concrete] at h
      cases left with
      | none => exact ⟨_, rfl⟩
      | some left =>
        cases right with
        | none => exact ⟨_, rfl⟩
        | some right =>
          obtain ⟨leftKey, hleftKey⟩ := hleft left rfl h.1
          obtain ⟨rightKey, hrightKey⟩ := hright right rfl h.2
          simp only [canonicalConcreteTypeKey, hleftKey, hrightKey, ok_bind]
          exact ⟨_, rfl⟩
    | array =>
      rw [TypeSpec.Concrete] at h
      obtain ⟨element, rfl⟩ := Option.isSome_iff_exists.mp h.1
      obtain ⟨elementKey, helementKey⟩ := helement element rfl h.2
      simp only [canonicalConcreteTypeKey, helementKey, ok_bind]
      exact ⟨_, rfl⟩
    | function =>
      rw [TypeSpec.Concrete] at h
      obtain ⟨functionReturn, rfl⟩ := Option.isSome_iff_exists.mp h.1
      obtain ⟨keys, hkeys⟩ := hparameters h.2.1
      obtain ⟨returnKey, hreturnKey⟩ := hreturn functionReturn rfl h.2.2
      simp only [canonicalConcreteTypeKey, hkeys, hreturnKey, ok_bind]
      exact ⟨_, rfl⟩
    | map | ephemeron =>
      rw [TypeSpec.Concrete] at h
      obtain ⟨key, rfl⟩ := Option.isSome_iff_exists.mp h.1
      obtain ⟨value, rfl⟩ := Option.isSome_iff_exists.mp h.2.1
      obtain ⟨keyKey, hkeyKey⟩ := hkey key rfl h.2.2.1
      obtain ⟨valueKey, hvalueKey⟩ := hvalue value rfl h.2.2.2
      simp only [canonicalConcreteTypeKey, hkeyKey, hvalueKey, ok_bind]
      exact ⟨_, rfl⟩
    | weak =>
      rw [TypeSpec.Concrete] at h
      obtain ⟨weakTarget, rfl⟩ := Option.isSome_iff_exists.mp h.1
      obtain ⟨targetKey, htargetKey⟩ := htarget weakTarget rfl h.2
      simp only [canonicalConcreteTypeKey, htargetKey, ok_bind]
      exact ⟨_, rfl⟩
    | named | record | variant =>
      rw [TypeSpec.Concrete] at h
      obtain ⟨index, rfl⟩ := Option.isSome_iff_exists.mp h
      exact ⟨_, rfl⟩

theorem componentKey_isOk : ∀ component : Option TypeSpec, ∀ type, component = some type →
    type.Concrete → ∃ key, canonicalConcreteTypeKey type = .ok key
  | none, _, h, _ => nomatch h
  | some type, _, h, hconcrete => by
    cases h
    exact canonicalConcreteTypeKey_isOk type hconcrete

theorem functionParameterKeys_isOk : ∀ types : List TypeSpec, ConcreteList types →
    ∃ keys, functionParameterKeys types = .ok keys
  | [], _ => ⟨_, rfl⟩
  | type :: types, h => by
    rw [ConcreteList] at h
    obtain ⟨key, hkey⟩ := canonicalConcreteTypeKey_isOk type h.1
    obtain ⟨keys, hkeys⟩ := functionParameterKeys_isOk types h.2
    rw [functionParameterKeys, hkey, ok_bind, hkeys, ok_bind]
    exact ⟨_, rfl⟩

end

theorem typeArgumentKeys_isOk (h : ∀ type ∈ arguments, type.Concrete) :
    ∃ keys, typeArgumentKeys arguments = .ok keys := by
  induction arguments with
  | nil => exact ⟨_, rfl⟩
  | cons type types ih =>
    rw [List.forall_mem_cons] at h
    obtain ⟨key, hkey⟩ := canonicalConcreteTypeKey_isOk type h.1
    obtain ⟨keys, hkeys⟩ := ih h.2
    rw [typeArgumentKeys, hkey, ok_bind, hkeys, ok_bind]
    exact ⟨_, rfl⟩

/-- A tuple of concrete arguments gives every template a name. -/
theorem mangleGenericFunctionName_isOk (h : ∀ type ∈ arguments, type.Concrete)
    (name : String) : ∃ mangled, mangleGenericFunctionName name arguments = .ok mangled := by
  obtain ⟨keys, hkeys⟩ := typeArgumentKeys_isOk h
  rw [mangleGenericFunctionName, canonicalTypeArgumentTupleKey, hkeys]
  exact ⟨_, rfl⟩

/-! ## Instances -/

variable {mangled : String}

theorem instantiateGenericFunction_clonesTo {declaration : FunctionDecl}
    (hname : mangleGenericFunctionName declaration.name arguments = .ok mangled)
    (h : declaration.Template arguments.length) :
    ClonesTo (instantiateGenericFunction declaration arguments)
      (declaration.replaced mangled arguments) declaration.LabelFree := by
  have hparameters := mapM_eq_ok_map fun parameter hparameter =>
    cloneParameter_eq_ok (h.parameters parameter hparameter)
  obtain ⟨statements, hstatements, estatements⟩ := cloneStatements_clonesTo _ h.statements
  obtain ⟨result, hresult, eresult⟩ := cloneExprOption_clonesTo _ h.result
  rw [instantiateGenericFunction, if_neg (not_not.mpr h.arity), hname, ok_bind, hparameters,
    ok_bind, substituteType_eq_ok _ h.returnType, ok_bind, hstatements, ok_bind, hresult,
    ok_bind, clonesTo_pure]
  simp [FunctionDecl.replaced, FunctionDecl.LabelFree, estatements, eresult,
    h.functionIndex, h.closureLayoutIndex, h.localCount]

theorem instantiateGenericType_eq_ok {declaration : TypeDecl}
    (hname : mangleGenericFunctionName declaration.name arguments = .ok mangled)
    (h : declaration.Template arguments.length) :
    instantiateGenericType declaration arguments =
      .ok (declaration.replaced mangled arguments) := by
  rw [instantiateGenericType, if_neg (not_not.mpr h.arity), hname, ok_bind,
    substituteType_eq_ok _ h.body, ok_bind, TypeDecl.replaced, h.typeIndex]
  rfl

theorem instantiateGenericRecord_eq_ok {declaration : RecordDecl}
    (hname : mangleGenericFunctionName declaration.name arguments = .ok mangled)
    (h : declaration.Template arguments.length) :
    instantiateGenericRecord declaration arguments =
      .ok (declaration.replaced mangled arguments) := by
  have hfields := mapM_eq_ok_map fun field hfield =>
    show cloneRecordField arguments field =
        .ok { field with type := field.type.replaced arguments } by
      rw [cloneRecordField, substituteType_eq_ok _ (h.fields field hfield)]
      rfl
  rw [instantiateGenericRecord, if_neg (not_not.mpr h.arity), hname, ok_bind, hfields,
    ok_bind, RecordDecl.replaced, h.layoutIndex]
  rfl

theorem instantiateGenericVariant_eq_ok {declaration : VariantDecl}
    (hname : mangleGenericFunctionName declaration.name arguments = .ok mangled)
    (h : declaration.Template arguments.length) :
    instantiateGenericVariant declaration arguments =
      .ok (declaration.replaced mangled arguments) := by
  have hcases := mapM_eq_ok_map fun case hcase =>
    show cloneVariantCase arguments case =
        .ok { case with fields := case.fields.map (.replaced arguments) } by
      rw [cloneVariantCase, substituteTypes_eq_map (h.cases case hcase)]
      rfl
  rw [instantiateGenericVariant, if_neg (not_not.mpr h.arity), hname, ok_bind, hcases,
    ok_bind, VariantDecl.replaced, h.layoutIndex]
  rfl

/-- Every instance is the declaration with its type parameters replaced by the arguments,
a function's exactly when its body has no loop label. -/
theorem instances_replace_parameters_iff (hconcrete : ∀ type ∈ arguments, type.Concrete) :
    (∀ declaration : FunctionDecl, declaration.Template arguments.length →
      ∃ mangled, mangleGenericFunctionName declaration.name arguments = .ok mangled ∧
        ∃ function, instantiateGenericFunction declaration arguments = .ok function ∧
          (function = declaration.replaced mangled arguments ↔ declaration.LabelFree)) ∧
    (∀ declaration : TypeDecl, declaration.Template arguments.length →
      ∃ mangled, mangleGenericFunctionName declaration.name arguments = .ok mangled ∧
        instantiateGenericType declaration arguments =
          .ok (declaration.replaced mangled arguments)) ∧
    (∀ declaration : RecordDecl, declaration.Template arguments.length →
      ∃ mangled, mangleGenericFunctionName declaration.name arguments = .ok mangled ∧
        instantiateGenericRecord declaration arguments =
          .ok (declaration.replaced mangled arguments)) ∧
    (∀ declaration : VariantDecl, declaration.Template arguments.length →
      ∃ mangled, mangleGenericFunctionName declaration.name arguments = .ok mangled ∧
        instantiateGenericVariant declaration arguments =
          .ok (declaration.replaced mangled arguments)) := by
  have hmangle := mangleGenericFunctionName_isOk hconcrete
  refine ⟨fun declaration h => ?_, fun declaration h => ?_, fun declaration h => ?_,
    fun declaration h => ?_⟩
  · obtain ⟨mangled, hname⟩ := hmangle declaration.name
    exact ⟨mangled, hname, instantiateGenericFunction_clonesTo hname h⟩
  · obtain ⟨mangled, hname⟩ := hmangle declaration.name
    exact ⟨mangled, hname, instantiateGenericType_eq_ok hname h⟩
  · obtain ⟨mangled, hname⟩ := hmangle declaration.name
    exact ⟨mangled, hname, instantiateGenericRecord_eq_ok hname h⟩
  · obtain ⟨mangled, hname⟩ := hmangle declaration.name
    exact ⟨mangled, hname, instantiateGenericVariant_eq_ok hname h⟩

/-- `fn spin<T>(value: T) -> i64 { outer: while true { while true { break outer; } } 0 }` -/
def spin : FunctionDecl where
  name := "spin"
  typeParameters := [{ name := "T" }]
  parameters := [{ name := "value", type := typeParameterType "T" 0 {} }]
  returnType := int64Type
  statements :=
    [{ kind := .while, target := {}, loopLabel := "outer",
       condition := some { kind := .boolLiteral, boolValue := true },
       body :=
        [{ kind := .while, target := {},
           condition := some { kind := .boolLiteral, boolValue := true },
           body := [{ kind := .break, target := {}, loopControlLabel := "outer" }] }] }]
  result := some { kind := .intLiteral }

theorem spin_template : spin.Template 1 where
  arity := rfl
  parameters := by simp [spin, Parameter.All, template, typeParameterType, TypeSpec.Scoped]
  returnType := by simp [spin, int64Type, TypeSpec.Scoped, ScopedOption, ScopedList]
  statements := by
    simp [spin, AllStatements, Statement.All, AllExprOption, AllExprs, Expr.All, LValue.All,
      AllLValueSteps, AllMatchArms, AllLambdaOption, template, Statement.Unchecked,
      Expr.Unchecked, LValue.Unchecked, invalidType, TypeSpec.Scoped, ScopedOption,
      ScopedList]
  result := by
    simp [spin, AllExprOption, AllExprs, Expr.All, AllLambdaOption, template,
      Expr.Unchecked, invalidType, TypeSpec.Scoped, ScopedOption, ScopedList]
  functionIndex := rfl
  closureLayoutIndex := rfl
  localCount := rfl

theorem int64Type_concrete : ∀ type ∈ [int64Type], type.Concrete := by
  simp [int64Type, TypeSpec.Concrete]

theorem instances_replace_parameters_iff_spin :
    ∃ mangled, mangleGenericFunctionName spin.name [int64Type] = .ok mangled ∧
      ∃ function, instantiateGenericFunction spin [int64Type] = .ok function ∧
        (function = spin.replaced mangled [int64Type] ↔ spin.LabelFree) :=
  (instances_replace_parameters_iff int64Type_concrete).1 spin spin_template

/-- The instance of `spin` at `i64` leaves the inner loop where `spin` leaves the outer one:
both labels are gone. -/
theorem spin_instance_loses_labels :
    ¬ ∀ (declaration : FunctionDecl) (arguments : List TypeSpec),
      (∀ type ∈ arguments, type.Concrete) → declaration.Template arguments.length →
        ∃ mangled, mangleGenericFunctionName declaration.name arguments = .ok mangled ∧
          instantiateGenericFunction declaration arguments =
            .ok (declaration.replaced mangled arguments) := by
  intro h
  obtain ⟨mangled, -, hinstance⟩ := h spin [int64Type] int64Type_concrete spin_template
  have hlabels : (instantiateGenericFunction spin [int64Type]).map
      (fun function => function.statements.map Statement.loopLabel) = .ok [""] := rfl
  rw [hinstance] at hlabels
  exact absurd hlabels (by simp [Except.map, FunctionDecl.replaced, spin,
    mapTypesStatements, Statement.mapTypes])

end LanguageRuntime.Frontend
