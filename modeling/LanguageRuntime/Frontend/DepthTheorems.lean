import LanguageRuntime.Frontend.Depth
import LanguageRuntime.Frontend.ParserTheorems
import Mathlib.Order.Lattice

/-!
# What bounds the depth of a syntax tree

The guard of the recursive functions bounds how often they are nested, but a chain of operators
of one precedence, or of calls, indices and fields after an operand, nests one node deeper with
every turn of its loop. So a tree is at most as deep as the guard and the longest chain allow,
and at least as deep as the longest chain.
-/

namespace LanguageRuntime.Frontend

open Library Library.Fuelled

/-! ## Depths of nodes -/

section Nodes

theorem depthTypeOption_eq (type : Option TypeSpec) : depthTypeOption type = depth type := by
  cases type <;> rfl

theorem depthTypes_eq (types : List TypeSpec) : depthTypes types = depth types := by
  induction types with
  | nil => rfl
  | cons type types ih => rw [depthTypes, ih]; rfl

theorem depthExprOption_eq (expr : Option Expr) : depthExprOption expr = depth expr := by
  cases expr <;> rfl

theorem depthExprs_eq (exprs : List Expr) : depthExprs exprs = depth exprs := by
  induction exprs with
  | nil => rfl
  | cons expr exprs ih => rw [depthExprs, ih]; rfl

theorem depthLambdaOption_eq (lambda : Option LambdaExpr) :
    depthLambdaOption lambda = depth lambda := by
  cases lambda <;> rfl

theorem depthSteps_eq (steps : List LValueStep) : depthSteps steps = depth steps := by
  induction steps with
  | nil => rfl
  | cons step steps ih => rw [depthSteps, ih]; rfl

theorem depthArms_eq (arms : List MatchArm) : depthArms arms = depth arms := by
  induction arms with
  | nil => rfl
  | cons arm arms ih => rw [depthArms, ih]; rfl

theorem depthStatements_eq (statements : List Statement) :
    depthStatements statements = depth statements := by
  induction statements with
  | nil => rfl
  | cons statement statements ih => rw [depthStatements, ih]; rfl

@[simp] theorem depth_type_mk (kind : TypeSpec.Kind)
    (left right element key value weakTarget : Option TypeSpec)
    (functionParameters : List TypeSpec) (functionReturn : Option TypeSpec) (name : String)
    (position : SourcePosition)
    (namedTypeIndex recordLayoutIndex variantLayoutIndex typeParameterIndex : Option ℕ)
    (genericArguments : List TypeSpec) (genericDeclarationIndex : Option ℕ) :
    depth (TypeSpec.mk kind left right element key value weakTarget functionParameters
      functionReturn name position namedTypeIndex recordLayoutIndex variantLayoutIndex
      typeParameterIndex genericArguments genericDeclarationIndex) =
      1 + max (depth left) (max (depth right) (max (depth element) (max (depth key)
        (max (depth value) (max (depth weakTarget) (max (depth functionParameters)
          (max (depth functionReturn) (depth genericArguments)))))))) := by
  show TypeSpec.depth _ = _
  simp only [TypeSpec.depth, depthTypeOption_eq, depthTypes_eq]

@[simp] theorem depth_expr_mk (kind : Expr.Kind) (position operatorPosition : SourcePosition)
    (intValue : Int64) (boolValue : Bool) (stringValue name : String) (binaryOp : UInt8)
    (pairSite calleeIndex : ℕ) (left right receiver : Option Expr)
    (arrayElementType mapKeyType mapValueType : TypeSpec) (arguments : List Expr)
    (explicitTypeArguments : List TypeSpec) (typeArgumentsPosition : SourcePosition)
    (fieldNames : List String) (fieldPositions : List SourcePosition) (inferredType : TypeSpec)
    (objectSites : List ℕ) (localIndex closureLayoutIndex captureIndex : ℕ)
    (isCapture isFunctionReference directCall : Bool)
    (recordLayoutIndex recordFieldIndex variantLayoutIndex variantCaseIndex : ℕ)
    (lambda : Option LambdaExpr) :
    depth (Expr.mk kind position operatorPosition intValue boolValue stringValue name binaryOp
      pairSite calleeIndex left right receiver arrayElementType mapKeyType mapValueType arguments
      explicitTypeArguments typeArgumentsPosition fieldNames fieldPositions inferredType
      objectSites localIndex closureLayoutIndex captureIndex isCapture isFunctionReference
      directCall recordLayoutIndex recordFieldIndex variantLayoutIndex variantCaseIndex lambda) =
      1 + max (depth left) (max (depth right) (max (depth receiver) (max (depth arrayElementType)
        (max (depth mapKeyType) (max (depth mapValueType) (max (depth arguments)
          (max (depth explicitTypeArguments) (max (depth inferredType) (depth lambda))))))))) := by
  show Expr.depth _ = _
  simp only [Expr.depth, depthExprOption_eq, depthExprs_eq, depthTypes_eq, depthLambdaOption_eq]
  rfl

@[simp] theorem depth_lambda_mk (position : SourcePosition) (parameters : List Parameter)
    (returnType : TypeSpec) (statements : List Statement) (result : Option Expr)
    (captures : List CaptureSpec) (functionIndex closureLayoutIndex localCount : ℕ) :
    depth (LambdaExpr.mk position parameters returnType statements result captures functionIndex
      closureLayoutIndex localCount) =
      1 + max (depth parameters) (max (depth returnType) (max (depth statements)
        (max (depth result) (depth captures)))) := by
  show LambdaExpr.depth _ = _
  simp only [LambdaExpr.depth, depthExprOption_eq, depthStatements_eq]
  rfl

@[simp] theorem depth_step_mk (kind : LValueStep.Kind) (name : String) (position : SourcePosition)
    (index : Option Expr) (receiverType elementType : TypeSpec)
    (recordLayoutIndex recordFieldIndex : ℕ) :
    depth (LValueStep.mk kind name position index receiverType elementType recordLayoutIndex
      recordFieldIndex) =
      max (depth index) (max (depth receiverType) (depth elementType)) := by
  show LValueStep.depth _ = _
  simp only [LValueStep.depth, depthExprOption_eq]
  rfl

@[simp] theorem depth_lvalue_mk (baseName : String) (basePosition : SourcePosition)
    (localIndex : ℕ) (steps : List LValueStep) (receiverType elementType : TypeSpec) :
    depth (LValue.mk baseName basePosition localIndex steps receiverType elementType) =
      max (depth steps) (max (depth receiverType) (depth elementType)) := by
  show LValue.depth _ = _
  simp only [LValue.depth, depthSteps_eq]
  rfl

@[simp] theorem depth_arm_mk (caseName : String) (position : SourcePosition)
    (bindings : List MatchBinding) (body : List Statement) (caseIndex : ℕ) :
    depth (MatchArm.mk caseName position bindings body caseIndex) =
      depth body := by
  show MatchArm.depth _ = _
  simp only [MatchArm.depth, depthStatements_eq]

@[simp] theorem depth_statement_mk (kind : Statement.Kind)
    (position equalsPosition : SourcePosition) (name : String) (declaredType : TypeSpec)
    (localIndex : ℕ) (initializer : Option Expr) (target : LValue) (value : Option Expr)
    (arguments : List Expr) (condition : Option Expr)
    (thenBranch elseBranch body : List Statement) (loopNames : List String)
    (loopNamePositions : List SourcePosition) (loopLocalIndices : List ℕ) (loopLabel : String)
    (loopLabelPosition : SourcePosition) (loopControlLabel : String)
    (loopControlLabelPosition : SourcePosition) (iterable rangeUpper : Option Expr)
    (loopLocalsAllocated matchLocalsAllocated : Bool) (matchArms : List MatchArm)
    (matchVariantLayoutIndex : ℕ) (catchBody : List Statement) (catchName : String)
    (catchPosition : SourcePosition) (catchType : TypeSpec) (catchLocalIndex : ℕ)
    (catchLocalAllocated : Bool) :
    depth (Statement.mk kind position equalsPosition name declaredType localIndex initializer
      target value arguments condition thenBranch elseBranch body loopNames loopNamePositions
      loopLocalIndices loopLabel loopLabelPosition loopControlLabel loopControlLabelPosition
      iterable rangeUpper loopLocalsAllocated matchLocalsAllocated matchArms
      matchVariantLayoutIndex catchBody catchName catchPosition catchType catchLocalIndex
      catchLocalAllocated) =
      1 + max (depth declaredType) (max (depth initializer) (max (depth target) (max (depth value)
        (max (depth arguments) (max (depth condition) (max (depth thenBranch)
          (max (depth elseBranch) (max (depth body) (max (depth iterable) (max (depth rangeUpper)
            (max (depth matchArms) (max (depth catchBody) (depth catchType))))))))))))) := by
  show Statement.depth _ = _
  simp only [Statement.depth, depthExprOption_eq, depthExprs_eq, depthStatements_eq, depthArms_eq]
  rfl

@[simp] theorem depth_invalidType : depth invalidType = 1 := by
  rw [invalidType]
  simp

end Nodes

/-! ## Chains -/

/-- The loops whose turns nest a node. -/
def Loop.IsChain : Loop → Prop
  | .equality | .comparison | .addition | .suffixes => True
  | _ => False

/-- No chain is longer than `L`. -/
def ChainsWithin (L : ℕ) (log : List (LoopTurn Loop ParserState)) : Prop :=
  ∀ turn ∈ log, turn.loop.IsChain → turn.number < L

/-- What a parser does to depths, when its result `a` is measured by `μ`: it keeps the depth of
the recursion, the result is at most `hi` deep under the assumption `pre` when chains are within
`L`, and without diagnostics it is at least `c` deep and deeper than every chain is long. The
lambdas the parser collects are at most `B` deep. -/
structure Nested {α : Type} (μ : α → ℕ) (L B : ℕ) (pre live : Prop) (c hi : ℕ)
    (s : ParserState) (a : α) (s' : ParserState) (log : List (LoopTurn Loop ParserState)) :
    Prop where
  recursionDepth : s'.recursionDepth = s.recursionDepth
  diagnostics : s'.diagnostics = [] → s.diagnostics = []
  upper : pre → ChainsWithin L log → μ a ≤ hi
  lambdas : pre → ChainsWithin L log → depth s.lambdas ≤ B → depth s'.lambdas ≤ B
  lower : live → s'.diagnostics = [] →
    c ≤ μ a ∧ ∀ turn ∈ log, turn.loop.IsChain → turn.number < μ a

def NestsBy {α : Type} (μ : α → ℕ) (d L B : ℕ) (pre live : Prop) (c hi : ℕ) (m : ParserM α) :
    Prop :=
  ∀ s a s', s.recursionDepth = d → (m s).result = some (a, s') →
    Nested μ L B pre live c hi s a s' (m s).log

/-- `NestsBy`, measured by the depth. -/
abbrev Nests {α : Type} [Deep α] : ℕ → ℕ → ℕ → Prop → Prop → ℕ → ℕ → ParserM α → Prop :=
  NestsBy depth

section Rules

variable {α β ι : Type} {μ : α → ℕ} {ν : β → ℕ} {d L B c c' hi hi' : ℕ} {pre pre' live live' : Prop}
  {m : ParserM α} {f : α → ParserM β}

theorem NestsBy.mono (h : NestsBy μ d L B pre live c hi m) (hpre : pre' → pre)
    (hlive : live' → live) (hc : c' ≤ c) (hhi : hi ≤ hi') :
    NestsBy μ d L B pre' live' c' hi' m := fun s a s' hd hresult => by
  have hnested := h s a s' hd hresult
  exact
    { hnested with
      upper := fun hp hlog => (hnested.upper (hpre hp) hlog).trans hhi
      lambdas := fun hp => hnested.lambdas (hpre hp)
      lower := fun hl hdiag =>
        ⟨hc.trans (hnested.lower (hlive hl) hdiag).1, (hnested.lower (hlive hl) hdiag).2⟩ }

theorem nestsBy_pure {a : α} (hupper : pre → μ a ≤ hi) (hlower : live → c ≤ μ a) :
    NestsBy μ d L B pre live c hi (pure a) := fun s b s' _ hresult => by
  cases hresult
  exact
    { recursionDepth := rfl
      diagnostics := id
      upper := fun hp _ => hupper hp
      lambdas := fun _ _ => id
      lower := fun hl _ => ⟨hlower hl, fun _ hturn => absurd hturn List.not_mem_nil⟩ }

theorem NestsBy.bind [Deep α] (hm : Nests d L B True True 0 hi' m)
    (hf : ∀ a, NestsBy ν d L B (pre ∧ depth a ≤ hi') live (max c (depth a)) hi (f a)) :
    NestsBy ν d L B pre live c hi (m >>= f) := fun s b s' hd hresult => by
  have ⟨a, s₁, hma, hfa⟩ := bind_result_eq_some.mp hresult
  have hfirst := hm s a s₁ hd hma
  have hsecond := hf a s₁ b s' (hfirst.recursionDepth.trans hd) hfa
  have hlog : ((m >>= f) s).log = (m s).log ++ (f a s₁).log := by rw [bind_run_some hma]
  have hwithin : ChainsWithin L ((m >>= f) s).log →
      ChainsWithin L (m s).log ∧ ChainsWithin L (f a s₁).log := fun h => by
    rw [hlog] at h
    exact ⟨fun turn hturn => h turn (List.mem_append_left _ hturn),
      fun turn hturn => h turn (List.mem_append_right _ hturn)⟩
  exact
    { recursionDepth := hsecond.recursionDepth.trans hfirst.recursionDepth
      diagnostics := fun h => hfirst.diagnostics (hsecond.diagnostics h)
      upper := fun hp hchains =>
        have hdepth := hfirst.upper trivial (hwithin hchains).1
        hsecond.upper ⟨hp, hdepth⟩ (hwithin hchains).2
      lambdas := fun hp hchains hB =>
        have hdepth := hfirst.upper trivial (hwithin hchains).1
        hsecond.lambdas ⟨hp, hdepth⟩ (hwithin hchains).2
          (hfirst.lambdas trivial (hwithin hchains).1 hB)
      lower := fun hl hdiag => by
        have ⟨hc, hturns⟩ := hsecond.lower hl hdiag
        refine ⟨(Nat.le_max_left _ _).trans hc, fun turn hturn hchain => ?_⟩
        rw [hlog] at hturn
        rcases List.mem_append.mp hturn with hturn | hturn
        · have hlt := (hfirst.lower trivial (hsecond.diagnostics hdiag)).2 turn hturn hchain
          omega
        · exact hturns turn hturn hchain }

theorem NestsBy.map {g : α → β} (hm : NestsBy (fun a => ν (g a)) d L B pre live c hi m) :
    NestsBy ν d L B pre live c hi (m >>= fun a => pure (g a)) := fun s b s' hd hresult => by
  have ⟨a, s₁, hma, hreturn⟩ := bind_result_eq_some.mp hresult
  cases hreturn
  have hnested := hm s a _ hd hma
  have hlog : ((m >>= fun a => pure (g a)) s).log = (m s).log := by
    rw [bind_run_some hma]
    exact List.append_nil _
  rw [hlog]
  exact ⟨hnested.recursionDepth, hnested.diagnostics, hnested.upper, hnested.lambdas,
    hnested.lower⟩

theorem NestsBy.ite {p : Prop} [Decidable p] {l : ParserM α}
    (hm : NestsBy μ d L B pre live c hi m) (hl : NestsBy μ d L B pre live c hi l) :
    NestsBy μ d L B pre live c hi (if p then m else l) := by
  split
  · exact hm
  · exact hl

/-! ### Programs without trees -/

/-- A program that parses no tree: it nests nothing and collects no lambda. -/
def Plain (m : ParserM α) : Prop :=
  ∀ s a s', (m s).result = some (a, s') → s'.recursionDepth = s.recursionDepth ∧
    (s'.diagnostics = [] → s.diagnostics = []) ∧ s'.lambdas = s.lambdas ∧
    ∀ turn ∈ (m s).log, ¬turn.loop.IsChain

theorem plain_pure (a : α) : Plain (pure a) := fun s b s' h => by
  cases h
  exact ⟨rfl, id, rfl, fun _ hturn => absurd hturn List.not_mem_nil⟩

theorem plain_read (g : ParserState → α) : Plain (read g) := fun s a s' h => by
  cases h
  exact ⟨rfl, id, rfl, fun _ hturn => absurd hturn List.not_mem_nil⟩

theorem plain_change {g : ParserState → ParserState}
    (h : ∀ s, (g s).recursionDepth = s.recursionDepth ∧
      ((g s).diagnostics = [] → s.diagnostics = []) ∧ (g s).lambdas = s.lambdas) :
    Plain (change g) := fun s a s' hresult => by
  cases hresult
  exact ⟨(h s).1, (h s).2.1, (h s).2.2, fun _ hturn => absurd hturn List.not_mem_nil⟩

theorem Plain.bind (hm : Plain m) (hf : ∀ a, Plain (f a)) : Plain (m >>= f) :=
  fun s b s' hresult => by
    have ⟨a, s₁, hma, hfa⟩ := bind_result_eq_some.mp hresult
    have ⟨hdepth, hdiag, hlambdas, hlog⟩ := hm s a s₁ hma
    have ⟨hdepth', hdiag', hlambdas', hlog'⟩ := hf a s₁ b s' hfa
    refine ⟨hdepth'.trans hdepth, fun h => hdiag (hdiag' h), hlambdas'.trans hlambdas, ?_⟩
    rw [bind_run_some hma]
    intro turn hturn
    rcases List.mem_append.mp hturn with hturn | hturn
    · exact hlog turn hturn
    · exact hlog' turn hturn

theorem Plain.ite {p : Prop} [Decidable p] {l : ParserM α} (hm : Plain m) (hl : Plain l) :
    Plain (if p then m else l) := by
  split
  · exact hm
  · exact hl

theorem plain_loop {kind : Loop} {body : ι → ParserM (Turn ι α)} (hkind : ¬kind.IsChain)
    (hbody : ∀ i, Plain (body i)) (n : ℕ) (i : ι) : Plain (loop kind n body i) := by
  have hfrom : ∀ n number i, Plain (loopFrom kind body n number i) := by
    intro n
    induction n with
    | zero => exact fun _ _ _ _ _ h => absurd h (by simp [loopFrom])
    | succ n ih =>
      intro number i
      apply (plain_read id).bind
      intro before
      apply (hbody i).bind
      intro turn
      cases turn with
      | leave a => exact plain_pure a
      | again i' =>
        apply (plain_read id).bind
        intro after
        apply Plain.bind _ fun _ => ih (number + 1) i'
        intro s a s' h
        cases h
        refine ⟨rfl, id, rfl, fun turn hturn => ?_⟩
        rw [List.mem_singleton.mp hturn]
        exact hkind
  exact hfrom n 0 i

theorem Plain.bind_nests (hm : Plain m) (hf : ∀ a, NestsBy ν d L B pre live c hi (f a)) :
    NestsBy ν d L B pre live c hi (m >>= f) := fun s b s' hd hresult => by
  have ⟨a, s₁, hma, hfa⟩ := bind_result_eq_some.mp hresult
  have ⟨hdepth, hdiag, hlambdas, hplain⟩ := hm s a s₁ hma
  have hnested := hf a s₁ b s' (hdepth.trans hd) hfa
  have hlog : ((m >>= f) s).log = (m s).log ++ (f a s₁).log := by rw [bind_run_some hma]
  have hwithin : ChainsWithin L ((m >>= f) s).log → ChainsWithin L (f a s₁).log := fun h => by
    rw [hlog] at h
    exact fun turn hturn => h turn (List.mem_append_right _ hturn)
  exact
    { recursionDepth := hnested.recursionDepth.trans hdepth
      diagnostics := fun h => hdiag (hnested.diagnostics h)
      upper := fun hp hchains => hnested.upper hp (hwithin hchains)
      lambdas := fun hp hchains hB =>
        hnested.lambdas hp (hwithin hchains) (by rw [hlambdas]; exact hB)
      lower := fun hl h => by
        have ⟨hc, hturns⟩ := hnested.lower hl h
        refine ⟨hc, fun turn hturn hchain => ?_⟩
        rw [hlog] at hturn
        rcases List.mem_append.mp hturn with hturn | hturn
        · exact absurd hchain (hplain turn hturn)
        · exact hturns turn hturn hchain }

end Rules

/-! ### Tokens -/

section Tokens

variable {α β : Type} {μ : α → ℕ} {d L B c hi : ℕ} {pre live : Prop}

theorem plain_peek : Plain peek := plain_read _

theorem plain_check (kind : TokenKind) : Plain (check kind) := plain_read _

theorem addDiagnostic_ne_nil (diagnostics : List Diagnostic) (position : SourcePosition)
    (message : String) : addDiagnostic diagnostics position message ≠ [] := by
  rw [addDiagnostic]
  split
  next h => exact fun hnil => by rw [hnil] at h; simp at h
  next => simp

theorem plain_diagnose (position : SourcePosition) (message : String) :
    Plain (diagnose position message) :=
  plain_change fun _ => ⟨rfl, fun h => absurd h (addDiagnostic_ne_nil _ _ _), rfl⟩

theorem plain_diagnoseNext (message : String) : Plain (diagnoseNext message) :=
  plain_peek.bind fun token => plain_diagnose token.position message

theorem advance_fields (s : ParserState) : s.advance.recursionDepth = s.recursionDepth ∧
    s.advance.diagnostics = s.diagnostics ∧ s.advance.lambdas = s.lambdas := by
  rw [ParserState.advance]
  split <;> exact ⟨rfl, rfl, rfl⟩

theorem nests_change_bind {g : ParserState → ParserState} {f : Unit → ParserM α}
    (h : ∀ s, (g s).recursionDepth = s.recursionDepth ∧
      ((g s).diagnostics = [] → s.diagnostics = []) ∧ (g s).lambdas = s.lambdas)
    (hf : NestsBy μ d L B pre live c hi (f ())) :
    NestsBy μ d L B pre live c hi (change g >>= f) :=
  (plain_change h).bind_nests fun _ => hf

/-- A change of the state after a program. -/
theorem NestsBy.change_after {g : ParserState → ParserState} {m : ParserM α}
    (hm : NestsBy μ d L B pre live c hi m)
    (h : ∀ s, (g s).recursionDepth = s.recursionDepth ∧
      ((g s).diagnostics = [] → s.diagnostics = []) ∧ (g s).lambdas = s.lambdas) :
    NestsBy μ d L B pre live c hi (do let a ← m; change g; pure a) := fun s a s' hd hresult => by
  have ⟨b, s₁, hmb, hrest⟩ := bind_result_eq_some.mp hresult
  cases hrest
  have hnested := hm s a s₁ hd hmb
  have hlog : ((do let a ← m; change g; pure a : ParserM α) s).log = (m s).log := by
    rw [bind_run_some hmb]
    exact List.append_nil _
  rw [hlog]
  exact
    { recursionDepth := (h s₁).1.trans hnested.recursionDepth
      diagnostics := fun hdiag => hnested.diagnostics ((h s₁).2.1 hdiag)
      upper := hnested.upper
      lambdas := fun hp hchains hB => by
        rw [(h s₁).2.2]
        exact hnested.lambdas hp hchains hB
      lower := fun hl hdiag => hnested.lower hl ((h s₁).2.1 hdiag) }

theorem plain_advance : Plain (change ParserState.advance) :=
  plain_change fun s =>
    ⟨(advance_fields s).1, fun h => (advance_fields s).2.1.symm.trans h, (advance_fields s).2.2⟩

theorem plain_advanceUnlessEnd : Plain advanceUnlessEnd :=
  plain_change fun s => by
    split
    · exact ⟨rfl, id, rfl⟩
    · exact ⟨(advance_fields s).1, fun h => (advance_fields s).2.1.symm.trans h,
        (advance_fields s).2.2⟩

theorem plain_synchronize : Plain synchronize := plain_change fun _ => ⟨rfl, id, rfl⟩

theorem plain_ifAhead {test : List Token → Bool} {passed : Token → ParserM α}
    {otherwise : ParserM α} (hpassed : ∀ token, Plain (passed token))
    (hotherwise : Plain otherwise) : Plain (ifAhead test passed otherwise) :=
  (plain_read _).bind fun _ =>
    .ite (plain_peek.bind fun token => plain_advance.bind fun _ => hpassed token) hotherwise

theorem plain_ifMatch {kinds : List TokenKind} {passed : Token → ParserM α}
    {otherwise : ParserM α} (hpassed : ∀ token, Plain (passed token))
    (hotherwise : Plain otherwise) : Plain (ifMatch kinds passed otherwise) :=
  plain_ifAhead hpassed hotherwise

theorem plain_expect (kind : TokenKind) (message : String) : Plain (expect kind message) :=
  plain_ifMatch (fun token => plain_pure (some token))
    ((plain_diagnoseNext message).bind fun _ => plain_pure none)

theorem plain_expectFieldName (message : String) : Plain (expectFieldName message) :=
  plain_ifMatch (fun token => plain_pure (some token))
    ((plain_diagnoseNext message).bind fun _ => plain_pure none)

theorem plain_requireResult (result : Option Expr) (message : String) :
    Plain (requireResult result message) :=
  (plain_read _).bind fun _ => .ite (plain_diagnoseNext message) (plain_pure ())

theorem plain_expectEnd (result : Option Expr) : Plain (expectEnd result) :=
  .ite ((plain_expect _ _).bind fun _ => plain_pure ()) (plain_pure ())

theorem nests_ifAhead {test : List Token → Bool} {passed : Token → ParserM α}
    {otherwise : ParserM α} (hpassed : ∀ token, NestsBy μ d L B pre live c hi (passed token))
    (hotherwise : NestsBy μ d L B pre live c hi otherwise) :
    NestsBy μ d L B pre live c hi (ifAhead test passed otherwise) :=
  (plain_read _).bind_nests fun _ =>
    .ite (plain_peek.bind_nests fun token => plain_advance.bind_nests fun _ => hpassed token)
      hotherwise

theorem nests_ifMatch {kinds : List TokenKind} {passed : Token → ParserM α}
    {otherwise : ParserM α} (hpassed : ∀ token, NestsBy μ d L B pre live c hi (passed token))
    (hotherwise : NestsBy μ d L B pre live c hi otherwise) :
    NestsBy μ d L B pre live c hi (ifMatch kinds passed otherwise) :=
  nests_ifAhead hpassed hotherwise

theorem diagnoseNext_reports (message : String) {s s' : ParserState} {u : Unit}
    (h : (diagnoseNext message s).result = some (u, s')) : s'.diagnostics ≠ [] := by
  cases h
  exact addDiagnostic_ne_nil _ _ _

theorem diagnose_reports (position : SourcePosition) (message : String) {s s' : ParserState}
    {u : Unit} (h : (diagnose position message s).result = some (u, s')) :
    s'.diagnostics ≠ [] := by
  cases h
  exact addDiagnostic_ne_nil _ _ _

/-- After a diagnostic only the upper bound is left to show. -/
theorem Plain.report_nests {m : ParserM β} {f : β → ParserM α} (hm : Plain m)
    (hreports : ∀ s b s', (m s).result = some (b, s') → s'.diagnostics ≠ [])
    (hf : ∀ b, NestsBy μ d L B pre False c hi (f b)) :
    NestsBy μ d L B pre live c hi (m >>= f) := fun s a s' hd hresult => by
  have hnested := hm.bind_nests hf s a s' hd hresult
  have ⟨b, s₁, hmb, hfb⟩ := bind_result_eq_some.mp hresult
  have hlater := hf b s₁ a s' ((hm s b s₁ hmb).1.trans hd) hfb
  exact
    { hnested with
      lower := fun _ hdiag => absurd (hlater.diagnostics hdiag) (hreports s b s₁ hmb) }

theorem nests_diagnoseNext (message : String) {f : Unit → ParserM α}
    (hf : NestsBy μ d L B pre False c hi (f ())) :
    NestsBy μ d L B pre live c hi (diagnoseNext message >>= f) :=
  (plain_diagnoseNext message).report_nests (fun _ _ _ => diagnoseNext_reports message)
    fun _ => hf

theorem nests_diagnose (position : SourcePosition) (message : String) {f : Unit → ParserM α}
    (hf : NestsBy μ d L B pre False c hi (f ())) :
    NestsBy μ d L B pre live c hi (diagnose position message >>= f) :=
  (plain_diagnose position message).report_nests
    (fun _ _ _ => diagnose_reports position message) fun _ => hf

theorem nests_guarded {tooDeep body : ParserM α}
    (hdeep : kMaxRecursionDepth ≤ d → NestsBy μ d L B pre live c hi tooDeep)
    (hbody : d < kMaxRecursionDepth → NestsBy μ (d + 1) L B pre live c hi body) :
    NestsBy μ d L B pre live c hi (guarded tooDeep body) := fun s a s' hd hresult => by
  rw [guarded, read_bind_run] at *
  split at hresult
  next hmax =>
    rw [if_pos hmax]
    rw [decide_eq_true_eq, hd] at hmax
    exact hdeep hmax s a s' hd hresult
  next hmax =>
    rw [if_neg hmax]
    rw [decide_eq_true_eq, hd, Nat.not_le] at hmax
    rw [change_bind_run] at *
    obtain ⟨b, s₁, hbodyRun, hrest⟩ := bind_result_eq_some.mp hresult
    have hnested := hbody hmax s.enter b s₁ (congrArg (· + 1) hd) hbodyRun
    have hlog : ((body >>= fun a => do change ParserState.exit; pure a) s.enter).log =
        (body s.enter).log := by
      rw [bind_run_some hbodyRun]
      exact List.append_nil _
    rw [hlog]
    cases hrest
    have hexit : s₁.exit.recursionDepth = s.recursionDepth := by
      show s₁.recursionDepth - 1 = s.recursionDepth
      rw [hnested.recursionDepth]
      rfl
    exact ⟨hexit, hnested.diagnostics, hnested.upper, hnested.lambdas, hnested.lower⟩

end Tokens

/-! ### Loops -/

section Loops

variable {α ι : Type} {d L B c hi : ℕ} {pre live : Prop}

/-- The depth of what a loop goes on with, or ends with. -/
def turnBy (μ : ι → ℕ) (ν : α → ℕ) : Turn ι α → ℕ
  | .again i => μ i
  | .leave a => ν a

abbrev turnDepth [Deep ι] [Deep α] : Turn ι α → ℕ := turnBy depth depth

/-- A loop that is not a chain stays within the bound of its turns. -/
theorem nestsBy_loop {μ : ι → ℕ} {ν : α → ℕ} {kind : Loop} {body : ι → ParserM (Turn ι α)}
    (hkind : ¬kind.IsChain)
    (hbody : ∀ i, NestsBy (turnBy μ ν) d L B (pre ∧ μ i ≤ hi) live (μ i) hi (body i))
    (n : ℕ) (i : ι) : NestsBy ν d L B (pre ∧ μ i ≤ hi) live (μ i) hi (loop kind n body i) := by
  have hfrom : ∀ n number i,
      NestsBy ν d L B (pre ∧ μ i ≤ hi) live (μ i) hi (loopFrom kind body n number i) := by
    intro n
    induction n with
    | zero => exact fun _ _ _ _ _ _ h => absurd h (by simp [loopFrom])
    | succ n ih =>
      intro number i s a s' hd hresult
      rw [loopFrom, read_bind_run] at hresult ⊢
      obtain ⟨turn, s₁, hturn, hrest⟩ := bind_result_eq_some.mp hresult
      have hfirst := hbody i s turn s₁ hd hturn
      rw [bind_run_some hturn]
      cases turn with
      | leave b =>
        cases hrest
        simp only [pure_run, List.append_nil]
        exact ⟨hfirst.recursionDepth, hfirst.diagnostics, hfirst.upper, hfirst.lambdas,
          hfirst.lower⟩
      | again i' =>
        simp only [read_bind_run, tell_bind_run] at hrest ⊢
        have hlater := ih (number + 1) i' s₁ a s' (hfirst.recursionDepth.trans hd) hrest
        have hsplit : ∀ {P : LoopTurn Loop ParserState → Prop} {turn log log'},
            (∀ t ∈ log ++ turn :: log', P t) → (∀ t ∈ log, P t) ∧ ∀ t ∈ log', P t :=
          fun h => ⟨fun t ht => h t (List.mem_append_left _ ht),
            fun t ht => h t (List.mem_append_right _ (List.mem_cons_of_mem _ ht))⟩
        exact
          { recursionDepth := hlater.recursionDepth.trans hfirst.recursionDepth
            diagnostics := fun h => hfirst.diagnostics (hlater.diagnostics h)
            upper := fun hp hchains =>
              hlater.upper ⟨hp.1, hfirst.upper hp (hsplit hchains).1⟩ (hsplit hchains).2
            lambdas := fun hp hchains hB =>
              hlater.lambdas ⟨hp.1, hfirst.upper hp (hsplit hchains).1⟩ (hsplit hchains).2
                (hfirst.lambdas hp (hsplit hchains).1 hB)
            lower := fun hl hdiag => by
              obtain ⟨hdepth, hturns⟩ := hlater.lower hl hdiag
              obtain ⟨hdepth', hturns'⟩ := hfirst.lower hl (hlater.diagnostics hdiag)
              have hgrow : μ i ≤ μ i' := hdepth'
              refine ⟨hgrow.trans hdepth, fun t ht hchain => ?_⟩
              rcases List.mem_append.mp ht with ht | ht
              · exact (hturns' t ht hchain).trans_le hdepth
              · cases ht with
                | head => exact absurd hchain hkind
                | tail _ ht => exact hturns t ht hchain }
  exact hfrom n 0 i

theorem nests_loop [Deep ι] [Deep α] {kind : Loop} {body : ι → ParserM (Turn ι α)}
    (hkind : ¬kind.IsChain)
    (hbody : ∀ i, NestsBy turnDepth d L B (pre ∧ depth i ≤ hi) live (depth i) hi (body i))
    (n : ℕ) (i : ι) : Nests d L B (pre ∧ depth i ≤ hi) live (depth i) hi (loop kind n body i) :=
  nestsBy_loop hkind hbody n i

/-- The depth of what a chain goes on with, without the node of its turn. -/
def chainDepth : Turn Expr Expr → ℕ
  | .again expression => depth expression - 1
  | .leave expression => depth expression

theorem depth_expr_pos (expression : Expr) : 0 < depth expression := by
  cases expression
  rw [depth_expr_mk]
  omega

/-- A chain nests one node with each turn. -/
theorem nests_chain {kind : Loop} {body : Expr → ParserM (Turn Expr Expr)} {lo : ℕ}
    (hkind : kind.IsChain)
    (hbody : ∀ expression hi, lo ≤ hi →
      NestsBy chainDepth d L B (depth expression ≤ hi) True (depth expression) hi (body expression))
    (n : ℕ) (expression : Expr) :
    Nests d L B (depth expression ≤ lo) True (depth expression) (lo + L)
      (loop kind n body expression) := by
  -- before the turn of a number the expression is that much deeper than at first, at most
  have hfrom : ∀ n number expression, Nests d L B (depth expression ≤ lo + number ∧ number ≤ L)
      (number ≤ depth expression) (depth expression) (lo + L)
      (loopFrom kind body n number expression) := by
    intro n
    induction n with
    | zero => exact fun _ _ _ _ _ _ h => absurd h (by simp [loopFrom])
    | succ n ih =>
      intro number expression s a s' hd hresult
      rw [loopFrom, read_bind_run] at hresult ⊢
      obtain ⟨turn, s₁, hturn, hrest⟩ := bind_result_eq_some.mp hresult
      have hfirst := hbody expression (lo + number) (Nat.le_add_right _ _) s turn s₁ hd hturn
      rw [bind_run_some hturn]
      cases turn with
      | leave b =>
        cases hrest
        simp only [pure_run, List.append_nil]
        exact
          { recursionDepth := hfirst.recursionDepth
            diagnostics := hfirst.diagnostics
            upper := fun hp hchains =>
              (hfirst.upper hp.1 hchains).trans (Nat.add_le_add_left hp.2 lo)
            lambdas := fun hp => hfirst.lambdas hp.1
            lower := fun _ => hfirst.lower trivial }
      | again next =>
        simp only [read_bind_run, tell_bind_run] at hrest ⊢
        have hlater := ih (number + 1) next s₁ a s' (hfirst.recursionDepth.trans hd) hrest
        have hpos := depth_expr_pos next
        have hsplit : ChainsWithin L ((body expression s).log ++ ⟨kind, number, s, s₁⟩ ::
              (loopFrom kind body n (number + 1) next s₁).log) →
            ChainsWithin L (body expression s).log ∧ number < L ∧
              ChainsWithin L (loopFrom kind body n (number + 1) next s₁).log := fun h =>
          ⟨fun t ht => h t (List.mem_append_left _ ht),
            h ⟨kind, number, s, s₁⟩ (List.mem_append_right _ List.mem_cons_self) hkind,
            fun t ht => h t (List.mem_append_right _ (List.mem_cons_of_mem _ ht))⟩
        have hnext : depth expression ≤ lo + number → ChainsWithin L (body expression s).log →
            depth next ≤ lo + (number + 1) := fun hp hchains => by
          have hdepth : depth next - 1 ≤ lo + number := hfirst.upper hp hchains
          omega
        exact
          { recursionDepth := hlater.recursionDepth.trans hfirst.recursionDepth
            diagnostics := fun h => hfirst.diagnostics (hlater.diagnostics h)
            upper := fun hp hchains => by
              obtain ⟨hbefore, hnumber, hafter⟩ := hsplit hchains
              exact hlater.upper ⟨hnext hp.1 hbefore, hnumber⟩ hafter
            lambdas := fun hp hchains hB => by
              obtain ⟨hbefore, hnumber, hafter⟩ := hsplit hchains
              exact hlater.lambdas ⟨hnext hp.1 hbefore, hnumber⟩ hafter
                (hfirst.lambdas hp.1 hbefore hB)
            lower := fun hl hdiag => by
              obtain ⟨hgrow, hturns⟩ := hfirst.lower trivial (hlater.diagnostics hdiag)
              simp only [chainDepth] at hgrow hturns
              obtain ⟨hdepth, hturns'⟩ := hlater.lower (by omega) hdiag
              refine ⟨by omega, fun t ht hchain => ?_⟩
              rcases List.mem_append.mp ht with ht | ht
              · have hlt := hturns t ht hchain
                omega
              · cases ht with
                | head =>
                  show number < depth a
                  omega
                | tail _ ht => exact hturns' t ht hchain }
  exact (hfrom n 0 expression).mono (fun h => ⟨h, Nat.zero_le L⟩) (fun _ => Nat.zero_le _)
    (Nat.le_refl _) (Nat.le_refl _)

end Loops

/-! ### Lists -/

section Lists

variable {α : Type} [Deep α] {d L B c hi : ℕ} {pre live : Prop} {item : ParserM α}

theorem nests_listTurnEnd (closing : Option TokenKind) (items : List α)
    (hupper : pre → depth items ≤ hi) (hlower : live → c ≤ depth items) :
    NestsBy turnDepth d L B pre live c hi (listTurnEnd closing items) :=
  nests_ifMatch
    (fun _ => plain_peek.bind_nests fun _ =>
      .ite (nestsBy_pure hupper hlower) (nestsBy_pure hupper hlower))
    (nestsBy_pure hupper hlower)

theorem nests_commaSeparated (n : ℕ) (closing : Option TokenKind)
    (hitem : Nests d L B True True 0 hi item) :
    Nests d L B True True 0 hi (commaSeparated n closing item) := by
  have hloop : Nests d L B (True ∧ depth ([] : List α) ≤ hi) True (depth ([] : List α)) hi
      (commaSeparated n closing item) := by
    apply nests_loop id
    intro items
    apply NestsBy.bind hitem
    intro a
    apply nests_listTurnEnd
    · intro hp
      simp only [depth_append, depth_cons, depth_nil]
      omega
    · intro _
      simp only [depth_append, depth_cons, depth_nil]
      omega
  exact hloop.mono (fun _ => ⟨trivial, Nat.zero_le _⟩) id (Nat.zero_le _) (Nat.le_refl _)

theorem nests_listUntil (n : ℕ) (close : TokenKind) (hitem : Nests d L B True True 0 hi item) :
    Nests d L B True True 0 hi (listUntil n close item) :=
  (plain_check close).bind_nests fun _ =>
    .ite (nestsBy_pure (fun _ => Nat.zero_le _) fun _ => Nat.zero_le _)
      (nests_commaSeparated n none hitem)

theorem nests_trailingListUntil (n : ℕ) (close : TokenKind)
    (hitem : Nests d L B True True 0 hi item) :
    Nests d L B True True 0 hi (trailingListUntil n close item) :=
  (plain_check close).bind_nests fun _ =>
    .ite (nestsBy_pure (fun _ => Nat.zero_le _) fun _ => Nat.zero_le _)
      (nests_commaSeparated n (some close) hitem)

theorem nests_nonemptyListUntil (n : ℕ) (close : TokenKind) (emptyMessage : String)
    (hitem : Nests d L B True True 0 hi item) :
    Nests d L B True True 0 hi (nonemptyListUntil n close emptyMessage item) :=
  (plain_check close).bind_nests fun _ =>
    .ite
      ((plain_diagnoseNext _).bind_nests fun _ =>
        nestsBy_pure (fun _ => Nat.zero_le _) fun _ => Nat.zero_le _)
      (nests_commaSeparated n none hitem)

end Lists

theorem plain_commaSeparated {α : Type} {item : ParserM α} (n : ℕ) (closing : Option TokenKind)
    (hitem : Plain item) : Plain (commaSeparated n closing item) :=
  plain_loop id
    (fun _ => hitem.bind fun _ =>
      plain_ifMatch (fun _ => plain_peek.bind fun _ => .ite (plain_pure _) (plain_pure _))
        (plain_pure _))
    n []

/-! ## Types -/

/-- What the recursive functions parse at a depth of the recursion is at most `m` deep. -/
structure ParsersNest (d L B m : ℕ) (p : Parsers) : Prop where
  type : Nests d L B True True 0 m p.type
  expression : Nests d L B True True 0 m p.expression
  statement : Nests d L B True True 0 m p.statement

section Types

variable {d L B m n : ℕ} {p : Parsers}

theorem nests_parseTypeArguments (h : ParsersNest d L B m p) :
    Nests d L B True True 0 m (parseTypeArguments n p) :=
  (plain_expect _ _).bind_nests fun _ => (nests_nonemptyListUntil n _ _ h.type).bind fun _ =>
    (plain_expect _ _).bind_nests fun _ => nestsBy_pure (by simp) (by simp)

theorem nests_parseArrayType (h : ParsersNest d L B m p) (token : Token) :
    Nests d L B True True 0 (m + 1) (parseArrayType p token) :=
  h.type.bind fun _ => (plain_expect _ _).bind_nests fun _ =>
    nestsBy_pure (by simp; omega) (by simp)

theorem nests_parseMapType (h : ParsersNest d L B m p) (token : Token) :
    Nests d L B True True 0 (m + 1) (parseMapType p token) :=
  (plain_expect _ _).bind_nests fun _ => h.type.bind fun _ => (plain_expect _ _).bind_nests fun _ =>
    h.type.bind fun _ => (plain_expect _ _).bind_nests fun _ =>
      nestsBy_pure (by simp; omega) (by simp <;> omega)

theorem nests_parseWeakType (h : ParsersNest d L B m p) (token : Token) :
    Nests d L B True True 0 (m + 1) (parseWeakType p token) :=
  (plain_expect _ _).bind_nests fun _ => h.type.bind fun _ => (plain_expect _ _).bind_nests fun _ =>
    nestsBy_pure (by simp; omega) (by simp)

theorem nests_parseEphemeronType (h : ParsersNest d L B m p) (token : Token) :
    Nests d L B True True 0 (m + 1) (parseEphemeronType p token) :=
  (plain_expect _ _).bind_nests fun _ => h.type.bind fun _ => (plain_expect _ _).bind_nests fun _ =>
    h.type.bind fun _ => (plain_expect _ _).bind_nests fun _ =>
      nestsBy_pure (by simp; omega) (by simp <;> omega)

theorem nests_parseFunctionType (h : ParsersNest d L B m p) (token : Token) :
    Nests d L B True True 0 (m + 1) (parseFunctionType n p token) :=
  (plain_expect _ _).bind_nests fun _ => (nests_listUntil n _ h.type).bind fun _ =>
    (plain_expect _ _).bind_nests fun _ => (plain_expect _ _).bind_nests fun _ =>
      h.type.bind fun _ =>
        nestsBy_pure (by simp; omega) (by simp <;> omega)

theorem nests_parsePairType (h : ParsersNest d L B m p) (token : Token) :
    Nests d L B True True 0 (m + 1) (parsePairType p token) :=
  nests_ifMatch
    (fun _ => h.type.bind fun _ => (plain_expect _ _).bind_nests fun _ => h.type.bind fun _ =>
      (plain_expect _ _).bind_nests fun _ =>
        nestsBy_pure (by simp; omega) (by simp <;> omega))
    (nestsBy_pure (by simp) (by simp))

theorem depth_parameterType (parameters : List TypeParameterDecl) (identifier : Token) :
    depth (parameterType parameters identifier) = 1 := by
  rw [parameterType]
  split <;> simp [typeParameterType]

theorem nests_parseNamedType (h : ParsersNest d L B m p) (token : Token) :
    Nests d L B True True 0 (m + 1) (parseNamedType n p token) :=
  (plain_check _).bind_nests fun _ =>
    .ite
      ((nests_parseTypeArguments h).bind fun _ =>
        nestsBy_pure (by simp; omega) (by simp))
      ((plain_read _).bind_nests fun _ =>
        nestsBy_pure (by simp [depth_parameterType]) (by simp))

/-- A type without parts. -/
theorem nests_leafType {type : TypeSpec} (h : depth type = 1) :
    Nests d L B True True 0 (m + 1) (pure type) :=
  nestsBy_pure (by simp [h]) (by simp)

theorem nests_parseTypeBody (h : ParsersNest d L B m p) :
    Nests d L B True True 0 (m + 1) (parseTypeBody n p) := by
  apply nests_ifMatch (nests_parseArrayType h)
  apply nests_ifMatch fun _ => nests_leafType (by simp [int64Type])
  apply nests_ifMatch fun _ => nests_leafType (by simp [boolType])
  apply nests_ifMatch fun _ => nests_leafType (by simp)
  apply nests_ifMatch fun _ => nests_leafType (by simp)
  apply nests_ifMatch (nests_parseMapType h)
  apply nests_ifMatch (nests_parseWeakType h)
  apply nests_ifMatch (nests_parseEphemeronType h)
  apply nests_ifMatch (nests_parseFunctionType h)
  apply nests_ifMatch (nests_parsePairType h)
  apply nests_ifMatch (nests_parseNamedType h)
  exact (plain_diagnoseNext _).bind_nests fun _ => nests_leafType depth_invalidType

end Types

/-! ## Blocks -/

section Blocks

variable {d L B m n : ℕ} {p : Parsers}

theorem nests_parseNextStatement (h : ParsersNest d L B m p) (statements : List Statement) :
    Nests d L B (depth statements ≤ m) True (depth statements) m
      (parseNextStatement p statements) := by
  apply h.statement.bind
  intro statement
  cases statement with
  | some statement => exact nestsBy_pure (by simp) (by simp)
  | none => exact plain_synchronize.bind_nests fun _ => nestsBy_pure (by simp) (by simp)

/-- A turn that goes on with another statement. -/
theorem nests_nextTurn {α : Type} [Deep α] (h : ParsersNest d L B m p)
    (statements : List Statement) :
    NestsBy (turnBy depth (depth : α → ℕ)) d L B (True ∧ depth statements ≤ m) True (depth statements) m
      (parseNextStatement p statements >>= fun statements => pure (.again statements)) :=
  .map ((nests_parseNextStatement h statements).mono And.right id (Nat.le_refl _) (Nat.le_refl _))

theorem nests_parseBlock (h : ParsersNest d L B m p) (openMessage : String) :
    Nests d L B True True 0 m (parseBlock n p openMessage) := by
  apply (plain_expect _ _).bind_nests
  intro opened
  cases opened with
  | none => exact nestsBy_pure (by simp) (by simp)
  | some _ =>
    have hloop : Nests d L B (True ∧ depth ([] : List Statement) ≤ m) True
        (depth ([] : List Statement)) m (loop .block n (parseBlockTurn p) []) :=
      nests_loop id (fun statements => (plain_read _).bind_nests fun _ =>
        .ite (nestsBy_pure And.right fun _ => Nat.le_refl _) (nests_nextTurn h statements)) n []
    apply NestsBy.bind (hloop.mono (by simp) id (Nat.zero_le _) (Nat.le_refl _))
    exact fun _ => (plain_expect _ _).bind_nests fun _ => nestsBy_pure And.right (by simp)

theorem nests_bodyLoop {kind : Loop} {body : List Statement → ParserM (Turn _ _)}
    (hkind : ¬kind.IsChain)
    (hbody : ∀ statements, NestsBy turnDepth d L B (True ∧ depth statements ≤ m) True
      (depth statements) m (body statements)) :
    Nests d L B True True 0 m
      (loop kind n body [] : ParserM (List Statement × Option Expr)) := by
  apply (nests_loop hkind hbody n []).mono _ id (Nat.zero_le _) (Nat.le_refl _)
  simp

theorem nests_result (h : ParsersNest d L B m p) (statements : List Statement) :
    NestsBy turnDepth d L B (True ∧ depth statements ≤ m) True (depth statements) m
      (p.expression >>= fun result =>
        pure (.leave (statements, some result)) : ParserM (Turn (List Statement) _)) :=
  h.expression.bind fun result => nestsBy_pure
    (fun hp => by
      show max (depth statements) (depth result) ≤ m
      omega)
    (fun _ => by
      show max (depth statements) (depth result) ≤ max (depth statements) (depth result)
      exact Nat.le_refl _)

theorem nests_noResult (statements : List Statement) :
    NestsBy turnDepth d L B (True ∧ depth statements ≤ m) True (depth statements) m
      (pure (.leave (statements, none)) :
        ParserM (Turn (List Statement) (List Statement × Option Expr))) :=
  nestsBy_pure
    (fun hp => by
      show max (depth statements) 0 ≤ m
      omega)
    (fun _ => by
      show depth statements ≤ max (depth statements) 0
      omega)

theorem nests_parseBody (h : ParsersNest d L B m p) :
    Nests d L B True True 0 m (parseBody n p) :=
  nests_bodyLoop id fun statements => (plain_read _).bind_nests fun _ =>
    .ite (nests_noResult statements) <| (plain_read _).bind_nests fun _ =>
      .ite (nests_nextTurn h statements) (nests_result h statements)

theorem nests_parseStatements (h : ParsersNest d L B m p) :
    Nests d L B True True 0 m (parseStatements n p) :=
  nests_bodyLoop id fun statements => (plain_check _).bind_nests fun _ =>
    .ite (nests_noResult statements) <| (plain_read _).bind_nests fun _ =>
      .ite (nests_nextTurn h statements) (nests_result h statements)

end Blocks

/-! ## Expressions -/

@[simp] theorem depth_parameter (parameter : Parameter) :
    depth parameter = depth parameter.type := rfl

section Expressions

variable {d L B m n c hi : ℕ} {pre live : Prop} {p : Parsers}

theorem nests_parseArguments (h : ParsersNest d L B m p) (closeMessage : String) :
    Nests d L B True True 0 m (parseArguments n p closeMessage) :=
  (nests_listUntil n _ h.expression).bind fun _ => (plain_expect _ _).bind_nests fun _ =>
    nestsBy_pure (by simp) (by simp)

theorem nests_parseParameter (h : ParsersNest d L B m p) (nameMessage colonMessage : String) :
    Nests d L B True True 0 m (parseParameter p nameMessage colonMessage) :=
  (plain_expect _ _).bind_nests fun _ => (plain_expect _ _).bind_nests fun _ =>
    h.type.bind fun _ => nestsBy_pure (by simp) (by simp)

/-- A lambda is collected and returned. -/
theorem nests_collect {lambda : LambdaExpr} {expression : Expr} (hB : pre → depth lambda ≤ B)
    (hupper : pre → depth expression ≤ hi) (hlower : live → c ≤ depth expression) :
    Nests d L B pre live c hi
      (change (fun s => s.collect lambda) >>= fun _ => pure expression) :=
  fun s a s' hd hresult => by
    cases hresult
    exact
      { recursionDepth := rfl
        diagnostics := id
        upper := fun hp _ => hupper hp
        lambdas := fun hp _ hlambdas => by
          show depth (s.lambdas ++ [lambda]) ≤ B
          have hlambda := hB hp
          simp only [depth_append, depth_cons, depth_nil]
          omega
        lower := fun hl _ => ⟨hlower hl, fun _ hturn => absurd hturn List.not_mem_nil⟩ }

theorem nests_parseLambda (h : ParsersNest d L B m p) (hB : m + 1 ≤ B) (fnToken : Token) :
    Nests d L B True True 0 (m + 2) (parseLambda n p fnToken) := by
  apply (plain_expect _ _).bind_nests
  intro _
  apply (nests_listUntil n _ (nests_parseParameter h _ _)).bind
  intro parameters
  apply (plain_expect _ _).bind_nests
  intro _
  apply (plain_expect _ _).bind_nests
  intro _
  apply h.type.bind
  intro returnType
  apply (plain_expect _ _).bind_nests
  intro _
  apply (nests_parseBody h).bind
  intro body
  apply (plain_requireResult _ _).bind_nests
  intro _
  apply (plain_expect _ _).bind_nests
  intro _
  obtain ⟨statements, result⟩ := body
  apply nests_collect
  · simp
    omega
  · simp
    omega
  · simp
    omega

theorem nests_parseOperand (h : ParsersNest d L B m p) (kind : Expr.Kind)
    (openMessage closeMessage : String) (token : Token) :
    Nests d L B True True 0 (m + 2) (parseOperand p kind openMessage closeMessage token) :=
  (plain_expect _ _).bind_nests fun _ => h.expression.bind fun _ =>
    (plain_expect _ _).bind_nests fun _ => nestsBy_pure (by simp; omega) (by simp; omega)

/-- Operands that are added to a node without them. -/
theorem depth_withOperands {expression : Expr} (hleft : expression.left = none)
    (hright : expression.right = none) (left right : Expr) :
    depth { expression with left := some left, right := some right } =
      max (depth expression) (1 + max (depth left) (depth right)) := by
  obtain ⟨kind, position, operatorPosition, intValue, boolValue, stringValue, name, binaryOp,
    pairSite, calleeIndex, _, _, receiver⟩ := expression
  subst hleft hright
  simp only [depth_expr_mk, depth_none, depth_some]
  generalize max (depth receiver) _ = others
  omega

/-- Arguments that are added to a node without them. -/
theorem depth_withArguments {expression : Expr} (hnone : expression.arguments = [])
    (kind : Expr.Kind) (names : List String) (positions : List SourcePosition)
    (arguments : List Expr) :
    depth { expression with kind := kind, fieldNames := names, fieldPositions := positions
                            arguments := arguments } =
      max (depth expression) (1 + depth arguments) := by
  obtain ⟨_, position, operatorPosition, intValue, boolValue, stringValue, name, binaryOp,
    pairSite, calleeIndex, left, right, receiver, arrayElementType, mapKeyType, mapValueType, _,
    explicitTypeArguments⟩ := expression
  subst hnone
  simp only [depth_expr_mk, depth_nil, Nat.zero_max]
  rw [Nat.add_max_add_left]
  ac_rfl

theorem nests_parseTwoOperands (h : ParsersNest d L B m p) {expression : Expr}
    (hleft : expression.left = none) (hright : expression.right = none)
    (hupper : pre → depth expression ≤ m + 2) (hlower : live → c ≤ depth expression)
    (openMessage commaMessage closeMessage : String) :
    Nests d L B pre live c (m + 2)
      (parseTwoOperands p expression openMessage commaMessage closeMessage) :=
  (plain_expect _ _).bind_nests fun _ => h.expression.bind fun _ =>
    (plain_expect _ _).bind_nests fun _ => h.expression.bind fun _ =>
      (plain_expect _ _).bind_nests fun _ => nestsBy_pure
        (fun hp => by
          have hle := hupper hp.1.1
          rw [depth_withOperands hleft hright]
          omega)
        (fun hl => by
          have hle := hlower hl
          rw [depth_withOperands hleft hright]
          omega)

theorem nests_parseBuiltin (h : ParsersNest d L B m p) (kind : Expr.Kind)
    (openMessage closeMessage : String) (token : Token) :
    Nests d L B True True 0 (m + 2) (parseBuiltin n p kind openMessage closeMessage token) :=
  (plain_expect _ _).bind_nests fun _ => (nests_parseArguments h _).bind fun _ =>
    nestsBy_pure (by simp; omega) (by simp; omega)

theorem depth_map_snd (fields : List (Option Token × Expr)) :
    depth (fields.map Prod.snd) = depth fields := by
  induction fields with
  | nil => rfl
  | cons field fields ih =>
    have hfield : depth field = depth field.2 := by
      show max (depth field.1) (depth field.2) = depth field.2
      cases field.1 <;> simp
    rw [List.map_cons, depth_cons, depth_cons, ih, hfield]

theorem nests_parseRecordFields (h : ParsersNest d L B m p) {expression : Expr}
    (hnone : expression.arguments = []) (hupper : pre → depth expression ≤ m + 2)
    (hlower : live → c ≤ depth expression) :
    Nests d L B pre live c (m + 2) (parseRecordFields n p expression) := by
  have hfields : Nests d L B True True 0 m
      (trailingListUntil n .rBrace do
        let field ← expectFieldName "expected record initializer field name"
        let _ ← expect .colon "expected ':' after record initializer field name"
        let argument ← p.expression
        pure (field, argument)) :=
    nests_trailingListUntil n _ <| (plain_expectFieldName _).bind_nests fun field =>
      (plain_expect _ _).bind_nests fun _ => h.expression.bind fun _ =>
        nestsBy_pure (by cases field <;> simp) (by cases field <;> simp)
  apply hfields.bind
  intro fields
  apply (plain_expect _ _).bind_nests
  intro _
  apply nestsBy_pure
  · intro hp
    have hle := hupper hp.1
    rw [depth_withArguments hnone, depth_map_snd]
    omega
  · intro hl
    have hle := hlower hl
    rw [depth_withArguments hnone, depth_map_snd]
    omega

/-- An operand that may go on as a record literal. -/
theorem nests_recordOr (h : ParsersNest d L B m p) {expression : Expr}
    (hnone : expression.arguments = []) (hupper : pre → depth expression ≤ m + 2)
    (hlower : live → c ≤ depth expression) :
    Nests d L B pre live c (m + 2)
      (ifMatch [.lBrace] (fun _ => parseRecordFields n p expression) (pure expression)) :=
  nests_ifMatch (fun _ => nests_parseRecordFields h hnone hupper hlower)
    (nestsBy_pure hupper hlower)

theorem nests_parseIdentifier (h : ParsersNest d L B m p) (identifier : Token) :
    Nests d L B True True 0 (m + 2) (parseIdentifier n p identifier) := by
  apply (plain_read _).bind_nests
  intro s
  apply NestsBy.ite
  · apply (nests_parseTypeArguments h).bind
    intro typeArguments
    apply NestsBy.ite
    · exact nests_recordOr h rfl (by simp; omega) (by simp; omega)
    · exact nestsBy_pure (by simp; omega) (by simp; omega)
  · apply NestsBy.ite
    · exact nests_recordOr h rfl (by simp) (by simp)
    · exact nestsBy_pure (by simp) (by simp)

theorem nests_parsePair (h : ParsersNest d L B m p) (token : Token) :
    Nests d L B True True 0 (m + 2) (parsePair p token) :=
  (plain_read _).bind_nests fun _ => nests_change_bind (fun _ => ⟨rfl, id, rfl⟩) <|
    nests_parseTwoOperands h rfl rfl (by simp) (by simp) _ _ _

theorem nests_parseSizedArray (h : ParsersNest d L B m p) (token : Token) :
    Nests d L B True True 0 (m + 2) (parseSizedArray p token) :=
  (plain_expect _ _).bind_nests fun _ => h.type.bind fun _ => (plain_expect _ _).bind_nests fun _ =>
    nests_parseTwoOperands h rfl rfl (by simp; omega) (by simp; omega) _ _ _

theorem nests_parseEmptyMap (h : ParsersNest d L B m p) (token : Token) :
    Nests d L B True True 0 (m + 2) (parseEmptyMap p token) :=
  (plain_expect _ _).bind_nests fun _ => h.type.bind fun _ => (plain_expect _ _).bind_nests fun _ =>
    h.type.bind fun _ => (plain_expect _ _).bind_nests fun _ => (plain_expect _ _).bind_nests fun _ =>
      (plain_expect _ _).bind_nests fun _ => nestsBy_pure (by simp; omega) (by simp; omega)

theorem nests_parseArrayLiteral (h : ParsersNest d L B m p) (token : Token) :
    Nests d L B True True 0 (m + 2) (parseArrayLiteral n p token) :=
  (nests_listUntil n _ h.expression).bind fun _ => (plain_expect _ _).bind_nests fun _ =>
    nestsBy_pure (by simp; omega) (by simp; omega)

theorem nests_parseParenthesized (h : ParsersNest d L B m p) :
    Nests d L B True True 0 (m + 2) (parseParenthesized p) :=
  h.expression.bind fun _ => (plain_expect _ _).bind_nests fun _ =>
    nestsBy_pure (by simp; omega) (by simp)

/-- A literal, and the node in the place of what is not an expression. -/
theorem nests_leaf {expression : Expr} (hdepth : depth expression = 2) :
    Nests d L B True True 0 (m + 2) (pure expression) :=
  nestsBy_pure (fun _ => by omega) (fun _ => Nat.zero_le _)

theorem nests_parsePrimary (h : ParsersNest d L B m p) (hB : m + 1 ≤ B) :
    Nests d L B True True 0 (m + 2) (parsePrimary n p) := by
  apply nests_ifMatch (nests_parseLambda h hB)
  apply nests_ifMatch fun _ => nests_leaf (by simp)
  apply nests_ifMatch fun _ => nests_leaf (by simp)
  apply nests_ifMatch fun _ => nests_leaf (by simp)
  apply nests_ifMatch fun _ => nests_leaf (by simp)
  apply nests_ifMatch (nests_parseOperand h _ _ _)
  apply nests_ifMatch (nests_parseOperand h _ _ _)
  apply nests_ifMatch fun _ => nests_parseTwoOperands h rfl rfl (by simp) (by simp) _ _ _
  apply nests_ifMatch (nests_parseBuiltin h _ _ _)
  apply nests_ifMatch (nests_parseOperand h _ _ _)
  apply nests_ifMatch fun _ => nests_parseBuiltin h _ _ _ _
  apply nests_ifMatch (nests_parseOperand h _ _ _)
  apply nests_ifMatch (nests_parseOperand h _ _ _)
  apply nests_ifMatch (nests_parseIdentifier h)
  apply nests_ifMatch (nests_parsePair h)
  apply nests_ifMatch (nests_parseSizedArray h)
  apply nests_ifMatch (nests_parseEmptyMap h)
  apply nests_ifMatch (nests_parseArrayLiteral h)
  apply nests_ifMatch fun _ => nests_parseParenthesized h
  exact (plain_diagnoseNext _).bind_nests fun _ => plain_peek.bind_nests fun _ =>
    plain_advanceUnlessEnd.bind_nests fun _ => nests_leaf (by simp)

/-! ### Chains -/

/-- What a turn of a chain goes on with has `expression` below a new node. -/
abbrev NestsUnder (d L B hi : ℕ) (expression : Expr) : ParserM Expr → Prop :=
  NestsBy (fun e => depth e - 1) d L B (depth expression ≤ hi) True (depth expression) hi

theorem nestsUnder_again {expression : Expr} {m' : ParserM Expr}
    (h : NestsUnder d L B hi expression m') :
    NestsBy chainDepth d L B (depth expression ≤ hi) True (depth expression) hi
      (m' >>= fun e => pure (.again e)) :=
  .map h

theorem nests_parseGenericCall (h : ParsersNest d L B m p) (hm : m + 1 ≤ hi) (expression : Expr)
    (token : Token) : NestsUnder d L B hi expression (parseGenericCall n p expression token) :=
  (nests_nonemptyListUntil n _ _ h.type).bind fun _ => (plain_expect _ _).bind_nests fun _ =>
    (plain_expect _ _).bind_nests fun _ => (nests_parseArguments h _).bind fun _ =>
      nestsBy_pure (by simp; omega) (by simp; omega)

theorem nests_parseMethod (h : ParsersNest d L B m p) (hm : m + 1 ≤ hi) (kind : Expr.Kind)
    (expression : Expr) (method : String) (token : Token) :
    NestsUnder d L B hi expression (parseMethod n p kind expression method token) :=
  (plain_expect _ _).bind_nests fun _ => (nests_parseArguments h _).bind fun _ =>
    nestsBy_pure (by simp; omega) (by simp; omega)

theorem nests_parseGetter (hhi : 1 ≤ hi) (kind : Expr.Kind) (expression : Expr)
    (openMessage closeMessage : String) (token : Token) :
    NestsUnder d L B hi expression
      (parseGetter kind expression openMessage closeMessage token) :=
  (plain_expect _ _).bind_nests fun _ => (plain_expect _ _).bind_nests fun _ =>
    nestsBy_pure (by simp; omega) (by simp)

theorem nests_parseHas (h : ParsersNest d L B m p) (hm : m + 1 ≤ hi) (expression : Expr)
    (token : Token) : NestsUnder d L B hi expression (parseHas p expression token) :=
  (plain_expect _ _).bind_nests fun _ => h.expression.bind fun _ =>
    (plain_expect _ _).bind_nests fun _ => nestsBy_pure (by simp; omega) (by simp; omega)

theorem nests_fieldOf (hhi : 1 ≤ hi) (expression : Expr) (token : Token) :
    NestsBy chainDepth d L B (depth expression ≤ hi) True (depth expression) hi
      (pure (.again (fieldOf expression token))) :=
  nestsBy_pure (by simp [chainDepth, fieldOf]; omega) (by simp [chainDepth, fieldOf])

theorem nests_parseMember (h : ParsersNest d L B m p) (hm : m + 1 ≤ hi) (expression : Expr) :
    NestsBy chainDepth d L B (depth expression ≤ hi) True (depth expression) hi
      (parseMember n p expression) := by
  have hhi : 1 ≤ hi := by omega
  apply nests_ifMatch (nests_fieldOf hhi expression)
  apply nests_ifAhead fun _ => nestsUnder_again (nests_parseHas h hm _ _)
  apply nests_ifAhead fun _ => nestsUnder_again (nests_parseGetter hhi _ _ _ _ _)
  apply nests_ifAhead fun _ => nestsUnder_again (nests_parseGetter hhi _ _ _ _ _)
  apply nests_ifAhead fun _ => nestsUnder_again (nests_parseMethod h hm _ _ _ _)
  apply nests_ifAhead fun _ => nestsUnder_again (nests_parseMethod h hm _ _ _ _)
  apply nests_ifAhead fun _ => nestsUnder_again (nests_parseMethod h hm _ _ _ _)
  apply nests_ifMatch (nests_fieldOf hhi expression)
  exact nests_diagnoseNext _ (nestsBy_pure id False.elim)

theorem nests_parseIndex (h : ParsersNest d L B m p) (hm : m + 1 ≤ hi) (expression : Expr)
    (token : Token) : NestsUnder d L B hi expression (parseIndex p expression token) :=
  h.expression.bind fun _ => (plain_expect _ _).bind_nests fun _ =>
    nestsBy_pure (by simp; omega) (by simp; omega)

theorem nests_parseCall (h : ParsersNest d L B m p) (hm : m + 1 ≤ hi) (expression : Expr) :
    NestsUnder d L B hi expression (parseCall n p expression) :=
  (nests_parseArguments h _).bind fun _ => nestsBy_pure (by simp; omega) (by simp; omega)

theorem nests_parseSuffix (h : ParsersNest d L B m p) (hm : m + 1 ≤ hi) (expression : Expr) :
    NestsBy chainDepth d L B (depth expression ≤ hi) True (depth expression) hi
      (parseSuffix n p expression) := by
  apply nests_ifMatch fun _ => nests_parseMember h hm expression
  apply nests_ifMatch fun _ => nestsUnder_again (nests_parseIndex h hm _ _)
  apply nests_ifMatch fun _ => nestsUnder_again (nests_parseCall h hm _)
  exact nestsBy_pure id fun _ => Nat.le_refl _

theorem nests_parsePostfix (h : ParsersNest d L B m p) (hB : m + 1 ≤ B) :
    Nests d L B True True 0 (m + 2 + L) (parsePostfix n p) := by
  have hkind : Loop.suffixes.IsChain := trivial
  apply (nests_parsePrimary h hB).bind
  intro expression
  apply (nests_chain hkind _ n expression).mono And.right id (by simp) (Nat.le_refl _)
  intro expression hi hhi
  apply (plain_read _).bind_nests
  intro names
  apply NestsBy.ite
  · exact nests_ifMatch
      (fun _ => nestsUnder_again (nests_parseGenericCall h (by omega) expression _))
      (nests_parseSuffix h (by omega) expression)
  · exact nests_parseSuffix h (by omega) expression

theorem nests_parseChain {kind : Loop} {operators : List TokenKind} {operand : ParserM Expr}
    {lo : ℕ} (hkind : kind.IsChain) (hlo : 1 ≤ lo) (hoperand : Nests d L B True True 0 lo operand) :
    Nests d L B True True 0 (lo + L) (parseChain n kind operators operand) := by
  apply hoperand.bind
  intro expression
  apply (nests_chain hkind _ n expression).mono And.right id (by simp) (Nat.le_refl _)
  intro expression hi hhi
  apply nests_ifMatch
  · intro operation
    exact hoperand.bind fun right => nestsBy_pure (by simp [chainDepth, binaryOf]; omega)
      (by simp [chainDepth, binaryOf]; omega)
  · exact nestsBy_pure id fun _ => Nat.le_refl _

theorem nests_parseEquality (h : ParsersNest (d + 1) L B m p) (hB : m + 1 ≤ B) :
    Nests (d + 1) L B True True 0 (m + 2 + 4 * L) (parseEquality n p) := by
  have hpostfix : Nests (d + 1) L B True True 0 (m + 2 + L) (parsePostfix n p) :=
    nests_parsePostfix h hB
  have haddition : Nests (d + 1) L B True True 0 (m + 2 + L + L) (parseAddition n p) :=
    nests_parseChain (show Loop.addition.IsChain from trivial) (by omega) hpostfix
  have hcomparison : Nests (d + 1) L B True True 0 (m + 2 + L + L + L) (parseComparison n p) :=
    nests_parseChain (show Loop.comparison.IsChain from trivial) (by omega) haddition
  have hequality : Nests (d + 1) L B True True 0 (m + 2 + L + L + L + L) (parseEquality n p) :=
    nests_parseChain (show Loop.equality.IsChain from trivial) (by omega) hcomparison
  exact hequality.mono id id (Nat.le_refl _) (by omega)

end Expressions

/-! ## Statements -/

section Statements

variable {α : Type} {μ : α → ℕ} {d L B m n c hi : ℕ} {pre live : Prop} {p : Parsers}

theorem nests_parseLet (h : ParsersNest d L B m p) (token : Token) :
    Nests d L B True True 0 (m + 2) (parseLet p token) :=
  (plain_expect _ _).bind_nests fun _ => (plain_expect _ _).bind_nests fun _ => h.type.bind fun _ =>
    (plain_expect _ _).bind_nests fun _ => h.expression.bind fun _ =>
      (plain_expect _ _).bind_nests fun _ => nestsBy_pure (by simp; omega) (by simp; omega)

theorem depth_fieldStep (field : Option Token) : depth (fieldStep field) ≤ 1 := by
  cases field <;> simp [fieldStep]

theorem nests_parseLvalueTurn (h : ParsersNest d L B m p) (steps : List LValueStep) :
    NestsBy turnDepth d L B (True ∧ depth steps ≤ m + 1) True (depth steps) (m + 1)
      (parseLvalueTurn p steps) := by
  apply nests_ifMatch
  · intro _
    apply (plain_expectFieldName _).bind_nests
    intro field
    have hfield := depth_fieldStep field
    apply nestsBy_pure
    · intro hp
      simp only [turnBy, depth_append]
      omega
    · intro _
      simp only [turnBy, depth_append]
      omega
  apply nests_ifMatch
  · intro _
    exact h.expression.bind fun _ => (plain_expect _ _).bind_nests fun _ =>
      nestsBy_pure (by simp [turnBy]; omega) (by simp [turnBy]; omega)
  · exact nestsBy_pure And.right fun _ => Nat.le_refl _

theorem nests_parseLvalue (h : ParsersNest d L B m p) :
    Nests d L B True True 0 (m + 1) (parseLvalue n p) := by
  apply (plain_expect _ _).bind_nests
  intro name
  have hkind : ¬Loop.places.IsChain := id
  have hloop := nests_loop hkind (nests_parseLvalueTurn h) n []
  apply NestsBy.bind (hloop.mono (by simp) id (Nat.zero_le _) (Nat.le_refl _))
  exact fun _ => nestsBy_pure (by simp) (by simp)

theorem nests_parseAssignment (h : ParsersNest d L B m p) :
    Nests d L B True True 0 (m + 2) (parseAssignment n p) :=
  plain_peek.bind_nests fun _ => (nests_parseLvalue h).bind fun _ =>
    (plain_expect _ _).bind_nests fun _ => h.expression.bind fun _ =>
      (plain_expect _ _).bind_nests fun _ => nestsBy_pure (by simp; omega) (by simp; omega)

theorem nests_parseIf (h : ParsersNest d L B m p) (token : Token) :
    Nests d L B True True 0 (m + 2) (parseIf n p token) := by
  apply h.expression.bind
  intro condition
  apply (nests_parseBlock h _).bind
  intro thenBranch
  have helse : Nests d L B True True 0 m
      (ifMatch [.else] (fun _ => parseBlock n p "expected '\x7b' before else body") do
        diagnoseNext "if statements require an else branch"
        pure []) :=
    nests_ifMatch (fun _ => nests_parseBlock h _)
      ((plain_diagnoseNext _).bind_nests fun _ => nestsBy_pure (by simp) (by simp))
  apply helse.bind
  exact fun elseBranch => nestsBy_pure (by simp; omega) (by simp; omega)

theorem nests_withoutRecordLiterals (off : Bool) {m' : ParserM α}
    (hm : NestsBy μ d L B pre live c hi m') :
    NestsBy μ d L B pre live c hi (withoutRecordLiterals off m') :=
  (plain_read _).bind_nests fun _ => nests_change_bind (fun _ => ⟨rfl, id, rfl⟩) <|
    hm.change_after fun _ => ⟨rfl, id, rfl⟩

theorem nests_parseWhile (h : ParsersNest d L B m p) (labeled : Bool) (token : Token) :
    Nests d L B True True 0 (m + 2) (parseWhile n p labeled token) :=
  (nests_withoutRecordLiterals labeled h.expression).bind fun _ =>
    (nests_parseBlock h _).bind fun _ => nestsBy_pure (by simp; omega) (by simp; omega)

theorem nests_parseRange (h : ParsersNest d L B m p) :
    Nests d L B True True 0 m (parseRange p) := by
  apply h.expression.bind
  intro iterable
  have hupper : Nests d L B True True 0 m
      (ifMatch [.dotDot] (fun _ => do let upper ← p.expression; pure (some upper)) (pure none)) :=
    nests_ifMatch (fun _ => h.expression.bind fun _ => nestsBy_pure (by simp) (by simp))
      (nestsBy_pure (by simp) (by simp))
  exact hupper.bind fun upper => nestsBy_pure (by simp) (by simp)

theorem nests_parseForIn (h : ParsersNest d L B m p) (labeled : Bool) (token : Token) :
    Nests d L B True True 0 (m + 2) (parseForIn n p labeled token) := by
  apply (plain_expect _ _).bind_nests
  intro first
  apply Plain.bind_nests (plain_ifMatch (fun _ => plain_expect _ _) (plain_pure _))
  intro second
  apply (plain_expect _ _).bind_nests
  intro _
  apply (nests_withoutRecordLiterals labeled (nests_parseRange h)).bind
  intro range
  apply (nests_parseBlock h _).bind
  intro body
  obtain ⟨iterable, upper⟩ := range
  exact nestsBy_pure (by simp; omega) (by simp; omega)

theorem nests_parsePrint (h : ParsersNest d L B m p) (token : Token) :
    Nests d L B True True 0 (m + 2) (parsePrint p token) :=
  (plain_expect _ _).bind_nests fun _ => h.expression.bind fun _ =>
    (plain_expect _ _).bind_nests fun _ => (plain_expect _ _).bind_nests fun _ =>
      nestsBy_pure (by simp; omega) (by simp; omega)

theorem nests_parseTry (h : ParsersNest d L B m p) (token : Token) :
    Nests d L B True True 0 (m + 2) (parseTry n p token) :=
  (nests_parseBlock h _).bind fun _ => (plain_expect _ _).bind_nests fun _ =>
    (plain_expect _ _).bind_nests fun _ => (plain_expect _ _).bind_nests fun _ =>
      (plain_expect _ _).bind_nests fun _ => h.type.bind fun _ =>
        (plain_expect _ _).bind_nests fun _ => (nests_parseBlock h _).bind fun _ =>
          nestsBy_pure (by simp; omega) (by simp; omega)

theorem plain_parseBindings : Plain (parseBindings n) :=
  plain_ifMatch
    (fun _ => Plain.bind
      ((plain_check _).bind fun _ => .ite (plain_pure _)
        (plain_commaSeparated n none (plain_expectFieldName _)))
      fun _ => (plain_expect _ _).bind fun _ => plain_pure _)
    (plain_pure _)

theorem nests_parseMatchArm (h : ParsersNest d L B m p) :
    Nests d L B True True 0 m (parseMatchArm n p) :=
  (plain_expect _ _).bind_nests fun _ => plain_parseBindings.bind_nests fun _ =>
    (plain_expect _ _).bind_nests fun _ => (nests_parseBlock h _).bind fun _ =>
      nestsBy_pure (by simp) (by simp)

theorem plain_parseArmEnd : Plain parseArmEnd :=
  plain_ifMatch (fun _ => plain_pure ()) <| (plain_check _).bind fun _ =>
    .ite (plain_pure ()) ((plain_diagnoseNext _).bind fun _ => plain_synchronize)

theorem nests_parseArmTurn (h : ParsersNest d L B m p) (arms : List MatchArm) :
    NestsBy turnDepth d L B (True ∧ depth arms ≤ m) True (depth arms) m (parseArmTurn n p arms) :=
  (plain_read _).bind_nests fun _ => .ite (nestsBy_pure And.right fun _ => Nat.le_refl _) <|
    (nests_parseMatchArm h).bind fun _ => plain_parseArmEnd.bind_nests fun _ =>
      nestsBy_pure (by simp [turnBy]) (by simp [turnBy])

theorem nests_parseMatch (h : ParsersNest d L B m p) (token : Token) :
    Nests d L B True True 0 (m + 2) (parseMatch n p token) := by
  apply (nests_withoutRecordLiterals true h.expression).bind
  intro condition
  apply (plain_expect _ _).bind_nests
  intro opened
  cases opened with
  | none => exact nestsBy_pure (by simp; omega) (by simp; omega)
  | some _ =>
    have hkind : ¬Loop.arms.IsChain := id
    have hloop := nests_loop hkind (nests_parseArmTurn (n := n) h) n []
    apply NestsBy.bind (hloop.mono (by simp) id (Nat.zero_le _) (Nat.le_refl _))
    exact fun _ => (plain_expect _ _).bind_nests fun _ =>
      nestsBy_pure (by simp; omega) (by simp; omega)

theorem nests_parseThrow (h : ParsersNest d L B m p) (token : Token) :
    Nests d L B True True 0 (m + 2) (parseThrow p token) :=
  h.expression.bind fun _ => (plain_expect _ _).bind_nests fun _ =>
    nestsBy_pure (by simp; omega) (by simp; omega)

theorem plain_checkTail (tail : Option Token) : Plain (checkTail tail) := by
  cases tail with
  | none => exact plain_pure ()
  | some tail => exact .ite (plain_pure ()) (plain_diagnose _ _)

theorem nests_parseTailCall (h : ParsersNest d L B m p) (token : Token) :
    Nests d L B True True 0 (m + 2) (parseTailCall p token) :=
  (plain_expect _ _).bind_nests fun tail => (plain_checkTail tail).bind_nests fun _ =>
    h.expression.bind fun _ => (plain_expect _ _).bind_nests fun _ =>
      nestsBy_pure (by simp; omega) (by simp; omega)

theorem nests_parseLoopControl (kind : Statement.Kind) (semicolonMessage : String)
    (keyword : Token) :
    Nests d L B True True 0 (m + 2) (parseLoopControl kind semicolonMessage keyword) :=
  Plain.bind_nests (plain_ifMatch (fun _ => plain_pure _) (plain_pure _)) fun _ =>
    (plain_expect _ _).bind_nests fun _ => nestsBy_pure (by simp) (by simp)

theorem nests_parseEphemeronSet (h : ParsersNest d L B m p) (receiver : Token) :
    Nests d L B True True 0 (m + 3) (parseEphemeronSet p receiver) :=
  (plain_expect _ _).bind_nests fun _ => plain_advance.bind_nests fun _ =>
    (plain_expect _ _).bind_nests fun _ => h.expression.bind fun _ =>
      (plain_expect _ _).bind_nests fun _ => (plain_expect _ _).bind_nests fun _ =>
        nestsBy_pure (by simp [receiverOf]; omega) (by simp [receiverOf]; omega)

theorem nests_parseBuilderMutation (h : ParsersNest d L B m p) (receiver : Token) :
    Nests d L B True True 0 (m + 3) (parseBuilderMutation n p receiver) :=
  (plain_expect _ _).bind_nests fun _ => plain_peek.bind_nests fun _ =>
    plain_advance.bind_nests fun _ => (plain_expect _ _).bind_nests fun _ =>
      (nests_parseArguments h _).bind fun _ => (plain_expect _ _).bind_nests fun _ =>
        nestsBy_pure (by simp [receiverOf]; omega) (by simp [receiverOf]; omega)

theorem depth_labelled (label : Token) (statement : Statement) :
    depth (labelled label statement) = depth statement := by
  cases statement
  rw [labelled, depth_statement_mk, depth_statement_mk]

/-- A statement that is returned as it is. -/
theorem nests_returned {m' : ParserM Statement} {hi' : ℕ}
    (hm : Nests d L B True True 0 hi' m') (hhi : hi' ≤ hi) :
    Nests d L B True True 0 hi (some <$> m') := by
  have hsome : NestsBy (fun statement => depth (some statement)) d L B True True 0 hi m' :=
    hm.mono id id (Nat.le_refl _) hhi
  exact .map hsome

theorem nests_labelled {m' : ParserM Statement} (label : Token)
    (hm : Nests d L B True True 0 hi m') :
    Nests d L B True True 0 hi (do pure (some (labelled label (← m')))) :=
  hm.bind fun statement => nestsBy_pure
    (fun hp => by
      rw [depth_some, depth_labelled]
      exact hp.2)
    (fun _ => by
      rw [depth_some, depth_labelled]
      omega)

theorem nests_parseLabelled (h : ParsersNest d L B m p) (label : Token) :
    Nests d L B True True 0 (m + 2) (parseLabelled n p label) := by
  apply plain_advance.bind_nests
  intro _
  apply nests_ifMatch fun token => nests_labelled label (nests_parseWhile h true token)
  apply nests_ifMatch fun token => nests_labelled label (nests_parseForIn h true token)
  exact nests_diagnose _ _ (nestsBy_pure (by simp) (by simp))

theorem nests_parseAssignmentAhead (h : ParsersNest d L B m p) :
    Nests d L B True True 0 (m + 2) (parseAssignmentAhead n p) :=
  (plain_read _).bind_nests fun _ =>
    .ite (nests_returned (nests_parseAssignment h) (Nat.le_refl _))
      (nests_diagnoseNext _ (nestsBy_pure (by simp) (by simp)))

theorem nests_parseStatementBody (h : ParsersNest d L B m p) :
    Nests d L B True True 0 (m + 3) (parseStatementBody n p) := by
  have hle : m + 2 ≤ m + 3 := Nat.le_succ _
  apply nests_ifAhead fun label => (nests_parseLabelled h label).mono id id (Nat.le_refl _) hle
  apply nests_ifMatch fun token => nests_returned (nests_parseLet h token) hle
  apply nests_ifMatch fun token => nests_returned (nests_parseIf h token) hle
  apply nests_ifMatch fun token => nests_returned (nests_parseWhile h false token) hle
  apply nests_ifMatch fun token => nests_returned (nests_parseForIn h false token) hle
  apply nests_ifMatch fun token => nests_returned (nests_parseMatch h token) hle
  apply nests_ifMatch fun token => nests_returned (nests_parseTry h token) hle
  apply nests_ifMatch fun token => nests_returned (nests_parseThrow h token) hle
  apply nests_ifMatch fun token => nests_returned (nests_parseTailCall h token) hle
  apply nests_ifMatch fun token => nests_returned (nests_parseLoopControl _ _ token) hle
  apply nests_ifMatch fun token => nests_returned (nests_parseLoopControl _ _ token) hle
  apply nests_ifMatch fun token => nests_returned (nests_parsePrint h token) hle
  apply nests_ifAhead fun _ => nests_returned (nests_parseEphemeronSet h _) (Nat.le_refl _)
  apply nests_ifAhead fun _ => nests_returned (nests_parseBuilderMutation h _) (Nat.le_refl _)
  exact (nests_parseAssignmentAhead h).mono id id (Nat.le_refl _) hle

end Statements

/-! ## The recursive functions -/

/-- The depth that the recursive functions stay within when they are called at a depth of the
recursion. Below the guard one call nests at most three nodes, and the turns of the chains of
the three precedences and of one operand. -/
def nestingBound (L d : ℕ) : ℕ := 2 + (kMaxRecursionDepth - d) * (4 * L + 3)

theorem nestingBound_step {d : ℕ} (L : ℕ) (h : d < kMaxRecursionDepth) :
    nestingBound L d = nestingBound L (d + 1) + (4 * L + 3) := by
  have hd : kMaxRecursionDepth - d = kMaxRecursionDepth - (d + 1) + 1 := by omega
  rw [nestingBound, nestingBound, hd, Nat.add_mul, Nat.one_mul, Nat.add_assoc]

theorem nestingBound_le (L d : ℕ) : nestingBound L d ≤ nestingBound L 0 :=
  Nat.add_le_add_left (Nat.mul_le_mul_right _ (Nat.sub_le_sub_left (Nat.zero_le d) _)) 2

theorem two_le_nestingBound (L d : ℕ) : 2 ≤ nestingBound L d := Nat.le_add_right 2 _

section Recursion

variable {d L m n : ℕ} {p : Parsers}

/-- One more call of the recursive functions. -/
theorem parsersNest_step
    (h : ParsersNest (d + 1) L (nestingBound L 0) (nestingBound L (d + 1)) p) :
    ParsersNest d L (nestingBound L 0) (nestingBound L d)
      { type := parseType n p, expression := parseExpression n p,
        statement := parseStatement n p } := by
  have htwo : 2 ≤ nestingBound L d := two_le_nestingBound L d
  constructor
  · apply nests_guarded
    · intro _
      exact nests_diagnoseNext _ <| plain_advanceUnlessEnd.bind_nests fun _ =>
        nestsBy_pure (by simp; omega) (by simp)
    · intro hd
      have hstep := nestingBound_step L hd
      exact (nests_parseTypeBody h).mono id id (Nat.le_refl _) (by omega)
  · apply nests_guarded
    · intro _
      exact nests_diagnoseNext _ <| plain_peek.bind_nests fun _ =>
        plain_advanceUnlessEnd.bind_nests fun _ => nestsBy_pure (by simp; omega) (by simp)
    · intro hd
      have hstep := nestingBound_step L hd
      have hle := nestingBound_le L d
      exact (nests_parseEquality h (by omega)).mono id id (Nat.le_refl _) (by omega)
  · apply nests_guarded
    · intro _
      exact nests_diagnoseNext _ <| plain_advanceUnlessEnd.bind_nests fun _ =>
        nestsBy_pure (fun _ => Nat.zero_le _) fun _ => Nat.le_refl _
    · intro hd
      have hstep := nestingBound_step L hd
      exact (nests_parseStatementBody h).mono id id (Nat.le_refl _) (by omega)

theorem parsersNest (L n d : ℕ) :
    ParsersNest d L (nestingBound L 0) (nestingBound L d) (parsers n) := by
  induction n generalizing d with
  | zero => constructor <;> exact fun _ _ _ _ h => nomatch h
  | succ n ih => exact parsersNest_step (ih (d + 1))

end Recursion

/-! ## Declarations -/

section Declarations

variable {α : Type} {μ : α → ℕ} {d L B m n c hi : ℕ} {pre live : Prop} {p : Parsers}

theorem plain_parseTypeParameters (emptyMessage : String) :
    Plain (parseTypeParameters n emptyMessage) :=
  plain_ifMatch
    (fun _ => Plain.bind
      ((plain_check _).bind fun _ => .ite
        ((plain_diagnoseNext _).bind fun _ => plain_pure _)
        (plain_commaSeparated n none (plain_expect _ _)))
      fun _ => (plain_expect _ _).bind fun _ => plain_pure _)
    (plain_pure _)

theorem nests_withTypeParameters (parameters : List TypeParameterDecl) {m' : ParserM α}
    (hm : NestsBy μ d L B pre live c hi m') :
    NestsBy μ d L B pre live c hi (withTypeParameters parameters m') :=
  (plain_read _).bind_nests fun _ => nests_change_bind (fun _ => ⟨rfl, id, rfl⟩) <|
    hm.change_after fun _ => ⟨rfl, id, rfl⟩

theorem plain_nextTypeOrder : Plain nextTypeOrder := by
  apply (plain_read _).bind
  intro order
  apply Plain.bind
  · exact plain_change fun _ => ⟨rfl, id, rfl⟩
  · exact fun _ => plain_pure order

theorem nests_parseTypeDeclaration (h : ParsersNest d L B m p) (typeToken : Token) :
    Nests d L B True True 0 m (parseTypeDeclaration n p typeToken) :=
  plain_nextTypeOrder.bind_nests fun _ => (plain_expect _ _).bind_nests fun _ =>
    (plain_parseTypeParameters _).bind_nests fun parameters =>
      nests_withTypeParameters parameters <| (plain_expect _ _).bind_nests fun _ =>
        plain_peek.bind_nests fun _ => h.type.bind fun _ => (plain_expect _ _).bind_nests fun _ =>
          nestsBy_pure And.right fun _ => Nat.max_le.mpr ⟨Nat.zero_le _, Nat.le_refl _⟩

theorem nests_parseRecordField (h : ParsersNest d L B m p) :
    Nests d L B True True 0 m (parseRecordField p) :=
  (plain_expectFieldName _).bind_nests fun _ => (plain_expect _ _).bind_nests fun _ =>
    h.type.bind fun _ =>
      nestsBy_pure And.right fun _ => Nat.max_le.mpr ⟨Nat.zero_le _, Nat.le_refl _⟩

theorem nests_parseRecordDeclaration (h : ParsersNest d L B m p) (recordToken : Token) :
    Nests d L B True True 0 m (parseRecordDeclaration n p recordToken) :=
  plain_nextTypeOrder.bind_nests fun _ => (plain_expect _ _).bind_nests fun _ =>
    nests_change_bind (fun _ => ⟨rfl, id, rfl⟩) <|
      (plain_parseTypeParameters _).bind_nests fun parameters =>
        nests_withTypeParameters parameters <| (plain_expect _ _).bind_nests fun _ =>
          (nests_trailingListUntil n _ (nests_parseRecordField h)).bind fun _ =>
            (plain_expect _ _).bind_nests fun _ =>
              nestsBy_pure And.right fun _ => Nat.max_le.mpr ⟨Nat.zero_le _, Nat.le_refl _⟩

theorem nests_parseVariantCase (h : ParsersNest d L B m p) :
    Nests d L B True True 0 m (parseVariantCase n p) :=
  (plain_expect _ _).bind_nests fun _ => (plain_expect _ _).bind_nests fun _ =>
    (nests_listUntil n _ h.type).bind fun _ => (plain_expect _ _).bind_nests fun _ =>
      nestsBy_pure And.right fun _ => Nat.max_le.mpr ⟨Nat.zero_le _, Nat.le_refl _⟩

theorem nests_parseVariantDeclaration (h : ParsersNest d L B m p) (variantToken : Token) :
    Nests d L B True True 0 m (parseVariantDeclaration n p variantToken) :=
  plain_nextTypeOrder.bind_nests fun _ => (plain_expect _ _).bind_nests fun _ =>
    (plain_parseTypeParameters _).bind_nests fun parameters =>
      nests_withTypeParameters parameters <| (plain_expect _ _).bind_nests fun _ =>
        (nests_trailingListUntil n _ (nests_parseVariantCase h)).bind fun _ =>
          (plain_expect _ _).bind_nests fun _ =>
            nestsBy_pure And.right fun _ => Nat.max_le.mpr ⟨Nat.zero_le _, Nat.le_refl _⟩

@[simp] theorem depth_function (declaration : FunctionDecl) :
    depth declaration = max (depth declaration.parameters) (max (depth declaration.returnType)
      (max (depth declaration.statements) (depth declaration.result))) := rfl

theorem nests_parseFunction (h : ParsersNest d L B m p) (fnToken : Token) :
    Nests d L B True True 0 m (parseFunction n p fnToken) := by
  apply (plain_read _).bind_nests
  intro _
  apply nests_change_bind
  · exact fun _ => ⟨rfl, id, rfl⟩
  apply (plain_expect _ _).bind_nests
  intro _
  apply (plain_parseTypeParameters _).bind_nests
  intro typeParameters
  apply nests_withTypeParameters
  apply (plain_expect _ _).bind_nests
  intro _
  apply (nests_listUntil n _ (nests_parseParameter h _ _)).bind
  intro parameters
  apply (plain_expect _ _).bind_nests
  intro _
  apply (plain_expect _ _).bind_nests
  intro _
  apply h.type.bind
  intro returnType
  apply (plain_expect _ _).bind_nests
  intro _
  apply (nests_parseBody h).bind
  intro body
  apply (plain_requireResult _ _).bind_nests
  intro _
  apply (plain_expect _ _).bind_nests
  intro _
  obtain ⟨statements, result⟩ := body
  apply nestsBy_pure
  · simp
    omega
  · simp

theorem depth_byParameters [Deep α] (parameters : List TypeParameterDecl)
    (own templates : List α) (declaration : α) :
    max (depth (byParameters parameters own templates declaration).1)
        (depth (byParameters parameters own templates declaration).2) =
      max (max (depth own) (depth templates)) (depth declaration) := by
  rw [byParameters]
  split
  · simp only [depth_append, depth_cons, depth_nil]
    omega
  · simp only [depth_append, depth_cons, depth_nil]
    omega

theorem declarationDepth_addType (program : Program) (declaration : TypeDecl) :
    (program.addType declaration).declarationDepth =
      max program.declarationDepth (depth declaration) := by
  have h := depth_byParameters declaration.typeParameters program.types program.genericTypes
    declaration
  simp only [Program.declarationDepth, Program.addType]
  rw [h]
  ac_rfl

theorem declarationDepth_addRecord (program : Program) (declaration : RecordDecl) :
    (program.addRecord declaration).declarationDepth =
      max program.declarationDepth (depth declaration) := by
  have h := depth_byParameters declaration.typeParameters program.records
    program.genericRecords declaration
  simp only [Program.declarationDepth, Program.addRecord]
  rw [h]
  ac_rfl

theorem declarationDepth_addVariant (program : Program) (declaration : VariantDecl) :
    (program.addVariant declaration).declarationDepth =
      max program.declarationDepth (depth declaration) := by
  have h := depth_byParameters declaration.typeParameters program.variants
    program.genericVariants declaration
  simp only [Program.declarationDepth, Program.addVariant]
  rw [h]
  ac_rfl

theorem declarationDepth_addFunction (program : Program) (declaration : FunctionDecl) :
    (program.addFunction declaration).declarationDepth =
      max program.declarationDepth (depth declaration) := by
  have h := depth_byParameters declaration.typeParameters program.functions
    program.genericFunctions declaration
  simp only [Program.declarationDepth, Program.addFunction]
  rw [h]
  ac_rfl

/-- A turn that adds a declaration to the program. -/
theorem nests_added [Deep α] {program : Program} {add : α → Program} {parse : ParserM α}
    (hadd : ∀ declaration,
      (add declaration).declarationDepth = max program.declarationDepth (depth declaration))
    (hparse : Nests d L B True True 0 m parse) :
    NestsBy (turnBy Program.declarationDepth Program.declarationDepth) d L B
      (True ∧ program.declarationDepth ≤ m) True program.declarationDepth m
      (do pure (.again (add (← parse)))) :=
  hparse.bind fun declaration => nestsBy_pure
    (fun hp => by
      show (add declaration).declarationDepth ≤ m
      have heq := hadd declaration
      omega)
    (fun _ => Nat.le_of_eq (hadd declaration).symm)

theorem nests_parseDeclarationsTurn (h : ParsersNest d L B m p) (program : Program) :
    NestsBy (turnBy Program.declarationDepth Program.declarationDepth) d L B
      (True ∧ program.declarationDepth ≤ m) True program.declarationDepth m
      (parseDeclarationsTurn n p program) := by
  apply nests_ifMatch fun token =>
    nests_added (declarationDepth_addType program) (nests_parseTypeDeclaration h token)
  apply nests_ifMatch fun token =>
    nests_added (declarationDepth_addRecord program) (nests_parseRecordDeclaration h token)
  apply nests_ifMatch fun token =>
    nests_added (declarationDepth_addVariant program) (nests_parseVariantDeclaration h token)
  apply nests_ifAhead fun token =>
    nests_added (declarationDepth_addFunction program) (nests_parseFunction h token)
  exact nestsBy_pure And.right fun _ => Nat.le_refl _

theorem nests_parseDeclarations (h : ParsersNest d L B m p) :
    NestsBy Program.declarationDepth d L B True True 0 m (parseDeclarations n p) := by
  have hkind : ¬Loop.declarations.IsChain := id
  have hbody : ∀ program, NestsBy (turnBy Program.declarationDepth Program.declarationDepth) d L B
      (True ∧ program.declarationDepth ≤ m) True program.declarationDepth m
      (parseDeclarationsTurn n p program) := nests_parseDeclarationsTurn h
  exact (nestsBy_loop hkind hbody n {}).mono (fun _ => ⟨trivial, Nat.zero_le m⟩) id (Nat.zero_le _)
    (Nat.le_refl m)

end Declarations

/-! ## Programs -/

section Programs

variable {L m n : ℕ} {p : Parsers} {s s' : ParserState} {answer : ParseResult} {program : Program}

theorem depth_program (program : Program) :
    depth program = max program.declarationDepth (max (depth program.lambdas)
      (max (depth program.statements) (depth program.result))) := rfl

/-- The parts of a run of `parse` that answers with a program, and its log. -/
theorem parseProgram_cases (hresult : (parseProgram n p s).result = some (answer, s'))
    (hprogram : answer.program = some program) :
    ∃ declared s₁ statements result s₂ log,
      (parseDeclarations n p s).result = some (declared, s₁) ∧
      (parseStatements n p s₁).result = some ((statements, result), s₂) ∧
      s₂.diagnostics = [] ∧
      (parseProgram n p s).log =
        (parseDeclarations n p s).log ++ ((parseStatements n p s₁).log ++ log) ∧
      (∀ turn ∈ log, ¬turn.loop.IsChain) ∧
      depth program = max declared.declarationDepth (max (depth s₂.lambdas)
        (max (depth statements) (depth result))) := by
  have ⟨declared, s₁, hdeclared, hrest⟩ := bind_result_eq_some.mp hresult
  have ⟨⟨statements, result⟩, s₂, hstatements, hrest⟩ := bind_result_eq_some.mp hrest
  have ⟨_, s₃, hrequire, hrest⟩ := bind_result_eq_some.mp hrest
  have ⟨_, s₄, hend, hrest⟩ := bind_result_eq_some.mp hrest
  have ⟨_, hdiag₃, hlambdas₃, hlog₃⟩ := plain_requireResult _ _ _ _ _ hrequire
  have ⟨_, hdiag₄, hlambdas₄, hlog₄⟩ := plain_expectEnd _ _ _ _ hend
  cases hrest
  -- a program is answered without diagnostics only
  have hnil : s'.diagnostics.isEmpty = true := by
    by_contra hne
    simp only [id, if_neg hne, reduceCtorEq] at hprogram
  simp only [id, if_pos hnil, Option.some.injEq] at hprogram
  refine ⟨declared, s₁, statements, result, s₂,
    (requireResult result "program must end with an expression" s₂).log ++
      ((expectEnd result s₃).log ++ []), hdeclared, hstatements,
    hdiag₃ (hdiag₄ (List.isEmpty_iff.mp hnil)), ?_, fun turn hturn => ?_, ?_⟩
  · rw [parseProgram, bind_run_some hdeclared]
    simp only [bind_run_some hstatements, bind_run_some hrequire, bind_run_some hend]
    rfl
  · rw [List.append_nil] at hturn
    rcases List.mem_append.mp hturn with hturn | hturn
    · exact hlog₃ turn hturn
    · exact hlog₄ turn hturn
  · rw [← hprogram, depth_program, ← hlambdas₃, ← hlambdas₄]
    rfl

/-- A program is as deep as the guard and its longest chain allow, and deeper than every chain
is long. -/
theorem parseProgram_depth (h : ParsersNest 0 L m m p) (hdepth : s.recursionDepth = 0)
    (hlambdas : s.lambdas = []) (hresult : (parseProgram n p s).result = some (answer, s'))
    (hprogram : answer.program = some program) :
    (ChainsWithin L (parseProgram n p s).log → depth program ≤ m) ∧
      ∀ turn ∈ (parseProgram n p s).log, turn.loop.IsChain → turn.number < depth program := by
  have ⟨declared, s₁, statements, result, s₂, log, hdeclared, hstatements, hdiag, hlog, hplain,
    hprogramDepth⟩ := parseProgram_cases hresult hprogram
  have hfirst := nests_parseDeclarations h s declared s₁ hdepth hdeclared
  have hsecond := nests_parseStatements h s₁ (statements, result) s₂
    (hfirst.recursionDepth.trans hdepth) hstatements
  have hpair : depth (statements, result) = max (depth statements) (depth result) := rfl
  rw [hlog, hprogramDepth]
  constructor
  · intro hchains
    have hchains₁ : ChainsWithin L (parseDeclarations n p s).log :=
      fun turn hturn => hchains turn (List.mem_append_left _ hturn)
    have hchains₂ : ChainsWithin L (parseStatements n p s₁).log :=
      fun turn hturn => hchains turn (List.mem_append_right _ (List.mem_append_left _ hturn))
    have hupper₁ := hfirst.upper trivial hchains₁
    have hupper₂ := hsecond.upper trivial hchains₂
    have hcollected := hsecond.lambdas trivial hchains₂
      (hfirst.lambdas trivial hchains₁ (by simp [hlambdas]))
    omega
  · intro turn hturn hchain
    have hlower₁ := (hfirst.lower trivial (hsecond.diagnostics hdiag)).2 turn
    have hlower₂ := (hsecond.lower trivial hdiag).2 turn
    rcases List.mem_append.mp hturn with hturn | hturn
    · have hlt := hlower₁ hturn hchain
      omega
    rcases List.mem_append.mp hturn with hturn | hturn
    · have hlt := hlower₂ hturn hchain
      omega
    · exact absurd hchain (hplain turn hturn)

end Programs

/-- The parser returns the program from the tokens, and `log` is what its loops do. -/
def ParsesTo (tokens : List Token) (program : Program) (log : List (LoopTurn Loop ParserState)) :
    Prop :=
  ∃ n answer s, parseTokens n tokens = ⟨some (answer, s), log⟩ ∧ answer.program = some program

/-- A constant multiple of the guard bounds the trees of all the sources. -/
def DepthBounded (sources : Set (List Token)) : Prop :=
  ∃ c, ∀ tokens ∈ sources, ∀ program log, ParsesTo tokens program log →
    depth program ≤ c * kMaxRecursionDepth

/-- A constant bounds the chains of all the sources. -/
def ChainsBounded (sources : Set (List Token)) : Prop :=
  ∃ L, ∀ tokens ∈ sources, ∀ program log, ParsesTo tokens program log → ChainsWithin L log

theorem parsesTo_depth {tokens : List Token} {program : Program}
    {log : List (LoopTurn Loop ParserState)} (h : ParsesTo tokens program log) (L : ℕ) :
    (ChainsWithin L log → depth program ≤ nestingBound L 0) ∧
      ∀ turn ∈ log, turn.loop.IsChain → turn.number < depth program := by
  have ⟨n, answer, s, hrun, hprogram⟩ := h
  have hresult : (parseTokens n tokens).result = some (answer, s) := by rw [hrun]
  have hlog : (parseTokens n tokens).log = log := by rw [hrun]
  rw [← hlog]
  exact parseProgram_depth (parsersNest L n 0) rfl rfl hresult hprogram

theorem nestingBound_le_mul (L : ℕ) : nestingBound L 0 ≤ (4 * L + 4) * kMaxRecursionDepth := by
  rw [nestingBound, kMaxRecursionDepth]
  omega

/-- The guard bounds the depth of the trees of a class of sources exactly as far as their chains
of operators and of calls, indices and fields are bounded. -/
theorem depth_bounded_iff (sources : Set (List Token)) :
    DepthBounded sources ↔ ChainsBounded sources := by
  constructor
  · rintro ⟨c, hc⟩
    refine ⟨c * kMaxRecursionDepth, fun tokens hmem program log h turn hturn hchain => ?_⟩
    exact ((parsesTo_depth h 0).2 turn hturn hchain).trans_le (hc tokens hmem program log h)
  · rintro ⟨L, hL⟩
    refine ⟨4 * L + 4, fun tokens hmem program log h => ?_⟩
    exact ((parsesTo_depth h L).1 (hL tokens hmem program log h)).trans (nestingBound_le_mul L)

/-! ### Sums -/

def oneToken : Token := { kind := .integer, text := "1", integer := 1 }

def plusToken : Token := { kind := .plus, text := "+" }

/-- `+ 1 … + 1`, with a number of ones. -/
def addends : ℕ → List Token
  | 0 => [{ kind := .end }]
  | k + 1 => plusToken :: oneToken :: addends k

/-- `1 + 1 … + 1`. -/
def sumTokens (k : ℕ) : List Token := oneToken :: addends k

section Sums

variable {n k : ℕ} {p : Parsers}

/-- Before a sum. -/
def ParserState.beforeSum (s : ParserState) (k : ℕ) : ParserState :=
  { s with tokens := sumTokens k }

/-- After a one of a sum. -/
def ParserState.inSum (s : ParserState) (k : ℕ) : ParserState :=
  { s with previous := oneToken, tokens := addends k }

def oneExpr : Expr := { kind := .intLiteral, position := {}, intValue := 1 }

theorem parsePostfix_one (s : ParserState) :
    parsePostfix (n + 1) p (s.beforeSum k) = ⟨some (oneExpr, s.inSum k), []⟩ := by
  cases k <;> rfl

/-- A turn of the loop over the terms of a sum. -/
theorem parseChainTurn_plus (s : ParserState) (e : Expr) :
    parseChainTurn [.plus] (parsePostfix (n + 1) p) e (s.inSum (k + 1)) =
      ⟨some (.again (binaryOf plusToken e oneExpr), s.inSum k), []⟩ := by
  cases k <;> rfl

theorem loopFrom_sum (s : ParserState) (turns number : ℕ) (e : Expr) (hturns : k < turns) :
    ∃ e' log,
      loopFrom .addition (parseChainTurn [.plus] (parsePostfix (n + 1) p)) turns number e
        (s.inSum k) = ⟨some (e', s.inSum 0), log⟩ ∧ depth e + k ≤ depth e' := by
  induction k generalizing turns number e with
  | zero =>
    obtain ⟨turns, rfl⟩ : ∃ t, turns = t + 1 := ⟨turns - 1, by omega⟩
    exact ⟨e, [], rfl, Nat.le_refl _⟩
  | succ k ih =>
    obtain ⟨turns, rfl⟩ : ∃ t, turns = t + 1 := ⟨turns - 1, by omega⟩
    have ⟨e', log, hrun, hdepth⟩ :=
      ih turns (number + 1) (binaryOf plusToken e oneExpr) (by omega)
    have hnode : depth e + 1 ≤ depth (binaryOf plusToken e oneExpr) := by
      simp [binaryOf]
      omega
    refine ⟨e', ⟨.addition, number, s.inSum (k + 1), s.inSum k⟩ :: log, ?_, by omega⟩
    have hturn : (parseChainTurn [.plus] (parsePostfix (n + 1) p) e (s.inSum (k + 1))).result =
        some (.again (binaryOf plusToken e oneExpr), s.inSum k) := by rw [parseChainTurn_plus]
    rw [loopFrom, read_bind_run, bind_run_some hturn, parseChainTurn_plus]
    simp only [read_bind_run, tell_bind_run, hrun]
    rfl

theorem parseAddition_sum (s : ParserState) (hk : k < n) :
    ∃ e log, parseAddition n p (s.beforeSum k) = ⟨some (e, s.inSum 0), log⟩ ∧ k < depth e := by
  obtain ⟨n, rfl⟩ : ∃ n', n = n' + 1 := ⟨n - 1, by omega⟩
  have ⟨e, log, hrun, hdepth⟩ := loopFrom_sum (n := n) (p := p) s (n + 1) 0 oneExpr hk
  have hpos := depth_expr_pos oneExpr
  have hone : (parsePostfix (n + 1) p (s.beforeSum k)).result = some (oneExpr, s.inSum k) := by
    rw [parsePostfix_one]
  refine ⟨e, log, ?_, by omega⟩
  rw [parseAddition, parseChain, bind_run_some hone, parsePostfix_one, loop, hrun]
  rfl

/-- A chain that ends after its first operand. -/
theorem parseChain_operand {kind : Loop} {operators : List TokenKind} {operand : ParserM Expr}
    {s s' : ParserState} {e : Expr} {log : List (LoopTurn Loop ParserState)}
    (hoperand : operand s = ⟨some (e, s'), log⟩)
    (hend : operators.contains (nextKind s'.tokens) = false) :
    parseChain (n + 1) kind operators operand s = ⟨some (e, s'), log⟩ := by
  have hresult : (operand s).result = some (e, s') := by rw [hoperand]
  have hturn : parseChainTurn operators operand e s' = ⟨some (.leave e, s'), []⟩ := by
    rw [parseChainTurn, ifMatch, ifAhead, read_bind_run, hend]
    rfl
  have hleave : (parseChainTurn operators operand e s').result = some (.leave e, s') := by
    rw [hturn]
  rw [parseChain, bind_run_some hresult, hoperand, loop, loopFrom, read_bind_run,
    bind_run_some hleave, hturn]
  simp

theorem parseExpression_sum (s : ParserState) (hdepth : s.recursionDepth < kMaxRecursionDepth)
    (hk : k < n) :
    ∃ e log, parseExpression n p (s.beforeSum k) = ⟨some (e, s.inSum 0), log⟩ ∧ k < depth e := by
  have ⟨e, log, hrun, hlt⟩ := parseAddition_sum (p := p) s.enter hk
  obtain ⟨n, rfl⟩ : ∃ n', n = n' + 1 := ⟨n - 1, by omega⟩
  have hequality : parseEquality (n + 1) p (s.enter.beforeSum k) =
      ⟨some (e, s.enter.inSum 0), log⟩ :=
    parseChain_operand (parseChain_operand hrun rfl) rfl
  have hresult : (parseEquality (n + 1) p (s.enter.beforeSum k)).result =
      some (e, s.enter.inSum 0) := by rw [hequality]
  refine ⟨e, log, ?_, hlt⟩
  have hguard : ¬decide (kMaxRecursionDepth ≤ (s.beforeSum k).recursionDepth) = true := by
    rw [decide_eq_true_eq, Nat.not_le]
    exact hdepth
  rw [parseExpression, guarded, read_bind_run, if_neg hguard, change_bind_run]
  show (parseEquality (n + 1) p >>= _) (s.enter.beforeSum k) = _
  rw [bind_run_some hresult, hequality]
  simp only [change_bind_run, pure_run, List.append_nil]
  rfl

theorem sumTokens_getLast? (k : ℕ) : (sumTokens k).getLast?.map Token.kind = some .end := by
  induction k with
  | zero => rfl
  | succ k ih => exact ih

theorem parseStatements_sum (s : ParserState) {e : Expr} {s' : ParserState}
    {log : List (LoopTurn Loop ParserState)}
    (hexpression : p.expression (s.beforeSum k) = ⟨some (e, s'), log⟩) :
    parseStatements (n + 1) p (s.beforeSum k) = ⟨some (([], some e), s'), log⟩ := by
  have hresult : (p.expression (s.beforeSum k)).result = some (e, s') := by rw [hexpression]
  have hturn : parseStatementsTurn p [] (s.beforeSum k) =
      ⟨some (.leave ([], some e), s'), log⟩ := by
    have hstarts : startsStatement (s.beforeSum k).tokens = false := by
      rcases k with _ | _ | k <;> rfl
    have hcheck : (check .end (s.beforeSum k)).result = some (false, s.beforeSum k) := rfl
    rw [parseStatementsTurn, bind_run_some hcheck]
    simp only [Bool.false_eq_true, if_false, read_bind_run, hstarts, bind_run_some hresult,
      hexpression]
    exact congrArg (Outcome.mk _) (List.append_nil log)
  have hleave : (parseStatementsTurn p [] (s.beforeSum k)).result =
      some (.leave ([], some e), s') := by rw [hturn]
  rw [parseStatements, loop, loopFrom, read_bind_run, bind_run_some hleave, hturn]
  simp

theorem parseTokens_sum (k : ℕ) :
    ∃ program log, ParsesTo (sumTokens k) program log ∧ k < depth program := by
  have hdepth : (ParserState.start (sumTokens k)).recursionDepth < kMaxRecursionDepth :=
    Nat.zero_lt_succ _
  have ⟨e, log, hrun, hlt⟩ := parseExpression_sum (p := parsers k) _ hdepth (Nat.lt_succ_self k)
  have hdeclarations : parseDeclarations (k + 1) (parsers (k + 1))
      (ParserState.start (sumTokens k)) = ⟨some ({}, ParserState.start (sumTokens k)), []⟩ := rfl
  have hstatements : parseStatements (k + 1) (parsers (k + 1))
      (ParserState.start (sumTokens k)) =
        ⟨some (([], some e), (ParserState.start (sumTokens k)).inSum 0), log⟩ :=
    parseStatements_sum (p := parsers (k + 1)) (ParserState.start (sumTokens k)) hrun
  have hdeclared : (parseDeclarations (k + 1) (parsers (k + 1))
      (ParserState.start (sumTokens k))).result = some ({}, ParserState.start (sumTokens k)) := by
    rw [hdeclarations]
  have hstated : (parseStatements (k + 1) (parsers (k + 1))
      (ParserState.start (sumTokens k))).result =
        some (([], some e), (ParserState.start (sumTokens k)).inSum 0) := by rw [hstatements]
  refine ⟨{ result := some e }, log, ⟨k + 1,
    { program := some { result := some e } },
    { (ParserState.start (sumTokens k)).inSum 0 with
        previous := { kind := .end }, tokens := [] }, ?_, rfl⟩, ?_⟩
  · rw [parseTokens, parseProgram, bind_run_some hdeclared, hdeclarations]
    simp only [bind_run_some hstated, hstatements]
    exact congrArg (Outcome.mk _) (List.append_nil log)
  · rw [depth_program]
    simp
    omega

end Sums

/-- No multiple of the guard bounds the depth of every tree: the guard does not count the terms
of a sum. -/
theorem sums_not_depthBounded :
    ¬DepthBounded {tokens | tokens.getLast?.map Token.kind = some .end} := by
  intro ⟨c, hc⟩
  have ⟨program, log, hparses, hlt⟩ := parseTokens_sum (c * kMaxRecursionDepth)
  have hle := hc _ (sumTokens_getLast? _) program log hparses
  omega

end LanguageRuntime.Frontend
