import LanguageRuntime.Bytecode.FactTheorems
import LanguageRuntime.Library.Maintains
import LanguageRuntime.Library.Wp

/-!
# Transfers keep the facts

Whatever instruction is run, the places of the states it leads to hold facts again.
-/

namespace LanguageRuntime.Bytecode

open LanguageRuntime.Library

/-! ## Operands -/

section Operands

variable {module : Module} {point : Point} {conforms : Conformance} {value : AbstractValue}

theorem maintains_reject {α : Type} {I : AbstractState → Prop} {Q : α → Prop}
    {reason : VerifierReason} {detail : String} :
    Maintains I (liftM (point.reject reason detail : Except VerifierDiagnostic α) : TransferM α) Q :=
  maintains_throw

theorem maintains_pushValue (h : FactAt module point.function value) :
    Maintains (FactsAt module point.function) (pushValue value) fun _ => True := by
  apply maintains_modify
  intro state hstate
  refine { hstate with stack := fun other hother => ?_ }
  rcases List.mem_cons.mp hother with rfl | hother
  · exact h
  · exact hstate.stack other hother

theorem maintains_popAny (reason : VerifierReason) (context : String) :
    Maintains (FactsAt module point.function) (popAny point reason context) fun value =>
      FactAt module point.function value ∧ value.kind ≠ .poison := by
  unfold popAny
  apply maintains_get.bind
  intro state hstate
  split
  case h_1 => exact maintains_reject
  case h_2 value rest hstack =>
    apply Maintains.ite
    · exact fun _ => maintains_reject
    · intro hpoison
      have hfacts : ∀ other ∈ value :: rest, FactAt module point.function other :=
        hstack ▸ hstate.stack
      apply (maintains_modify fun other hother => { hother with
        stack := fun v hv => hfacts v (List.mem_cons_of_mem _ hv) }).bind
      intro _ _
      exact maintains_pure ⟨hfacts value List.mem_cons_self, kind_ne_of_not_isPoison hpoison⟩

theorem maintains_popExpect (expected : AbstractKind) (underflow mismatch : VerifierReason)
    (context : String) :
    Maintains (FactsAt module point.function) (popExpect point expected underflow mismatch context)
      fun value => FactAt module point.function value ∧ value.kind = expected := by
  unfold popExpect
  apply (maintains_popAny _ _).bind
  intro value hvalue
  apply Maintains.ite
  · exact fun _ => maintains_reject
  · exact fun hkind => maintains_pure ⟨hvalue.1, not_not.mp hkind⟩

theorem maintains_popReference (underflow mismatch : VerifierReason) (context : String) :
    Maintains (FactsAt module point.function) (popReference point underflow mismatch context)
      fun value => ElementFactAt module point.function value ∧ value.kind ≠ .poison := by
  unfold popReference
  apply (maintains_popAny _ _).bind
  intro value hvalue
  apply Maintains.ite
  · exact fun _ => maintains_reject
  · intro hreference
    simp only [Bool.or_eq_true, Bool.not_eq_true', beq_iff_eq, not_or, Bool.not_eq_true,
      Bool.not_eq_false] at hreference
    exact maintains_pure
      ⟨elementFact_of_fact hvalue.1 hreference.1.2 hreference.2, hvalue.2⟩

theorem maintains_requireConforming (type : SignatureValue) (reason : VerifierReason)
    (detail : String) :
    Maintains (FactsAt module point.function)
      (requireConforming conforms point value type reason detail) fun _ => True := by
  unfold requireConforming
  apply maintains_get.bind
  intro state _
  apply Maintains.ite
  · exact fun _ => maintains_reject
  · exact fun _ => maintains_pure trivial

theorem maintains_popConforming (underflow mismatch : VerifierReason) (context detail : ℕ → String)
    (types : List SignatureValue) :
    Maintains (FactsAt module point.function)
      (popConforming conforms point underflow mismatch context detail types) fun _ => True := by
  unfold popConforming
  apply maintains_forM
  rintro ⟨type, index⟩ _
  apply (maintains_popAny _ _).bind
  intro value _
  exact maintains_requireConforming type mismatch (detail index)

theorem maintains_requireEntry {α : Type} {I : AbstractState → Prop} (operand : Int64)
    (table : List α) (reason : VerifierReason) (subject bound : String) :
    Maintains I (requireEntry point operand table reason subject bound) fun entry =>
      table[entry.1]? = some entry.2 := by
  unfold requireEntry
  split
  case h_1 hentry => exact maintains_pure (entryOperand_getElem? hentry)
  case h_2 => exact maintains_reject

theorem maintains_commitOrReject {I : AbstractState → Prop} {update : AbstractState → Option AbstractState}
    (reason : VerifierReason) (detail : String)
    (h : ∀ state state', I state → update state = some state' → I state') :
    Maintains I (commitOrReject point reason detail update) fun _ => True := by
  unfold commitOrReject
  apply maintains_get.bind
  intro state hstate
  split
  case h_1 state' hstate' => exact maintains_set (h state state' hstate hstate')
  case h_2 => exact maintains_reject

theorem maintains_popTwo (kind : AbstractKind) (reason : VerifierReason) (right left : String) :
    Maintains (FactsAt module point.function) (popTwo point kind reason right left)
      fun _ => True := by
  unfold popTwo
  apply (maintains_popExpect _ _ _ _).bind
  intro _ _
  apply (maintains_popExpect _ _ _ _).bind
  exact fun _ _ => maintains_pure trivial

theorem maintains_popMap (reason : VerifierReason) (context : String) :
    Maintains (FactsAt module point.function) (popMap point reason context) fun types =>
      sizeOf types.1 ≤ typeBound module point.function ∧
        sizeOf types.2 ≤ typeBound module point.function := by
  unfold popMap
  apply (maintains_popAny _ _).bind
  intro receiver hreceiver
  split
  case h_1 signature hkind hmap =>
    split
    case h_1 key value hentries hkey hvalue =>
      exact maintains_pure ⟨hreceiver.1.sizeOf_map hmap (.inl hkey),
        hreceiver.1.sizeOf_map hmap (.inr hvalue)⟩
    case h_2 => exact maintains_reject
  case h_2 => exact maintains_reject

end Operands

/-! ## Instructions -/

section Instructions

variable {module : Module} {point : Point} {conforms : Conformance} {value : AbstractValue}

theorem maintains_transferEphemeron :
    Maintains (FactsAt module point.function) (transferEphemeron conforms point)
      fun _ => True := by
  unfold transferEphemeron
  apply Maintains.ite_bind (Q := fun _ => True)
  · exact fun _ => (maintains_popAny _ _).map fun _ _ => trivial
  · exact fun _ => maintains_pure trivial
  intro stored _
  apply (maintains_popAny _ _).bind
  intro receiver hreceiver
  split
  case h_1 signature hkind hmap =>
    split
    case h_1 key value hentries hkey hvalue =>
      have hkeyPlain : PlainAt module point.function (valueFromSignature key) :=
        plain_valueFromSignature (hreceiver.1.sizeOf_map hmap (.inl hkey))
      have hvaluePlain : PlainAt module point.function (valueFromSignature value) :=
        plain_valueFromSignature (hreceiver.1.sizeOf_map hmap (.inr hvalue))
      split
      case h_1 => exact maintains_requireConforming _ _ _
      case h_2 =>
        apply Maintains.ite
        · exact fun _ => maintains_pushValue
            (fact_maybeReferenceValue hkeyPlain (kind_valueFromSignature key))
        · intro _
          apply maintains_pushValue
          split
          · exact fact_maybeReferenceValue hvaluePlain (kind_valueFromSignature value)
          · exact .plain hvaluePlain
    case h_2 => exact maintains_reject
  case h_2 => exact maintains_reject

theorem maintains_transferRecordAccess :
    Maintains (FactsAt module point.function) (transferRecordAccess conforms module point)
      fun _ => True := by
  unfold transferRecordAccess
  apply (maintains_requireEntry _ _ _ _ _).bind
  rintro ⟨index, layout⟩ hlayout
  apply (maintains_requireEntry _ _ _ _ _).bind
  rintro ⟨field, type⟩ htype
  apply Maintains.ite_bind (Q := fun _ => True)
  · exact fun _ => (maintains_popAny _ _).map fun _ _ => trivial
  · exact fun _ => maintains_pure trivial
  intro stored _
  apply (maintains_popAny _ _).bind
  intro receiver _
  apply Maintains.ite
  · exact fun _ => maintains_reject
  · intro _
    apply Maintains.ite
    · exact fun _ => maintains_reject
    · intro _
      apply Maintains.ite
      · exact fun _ => maintains_reject
      · intro _
        split
        case h_1 => exact maintains_requireConforming _ _ _
        case h_2 =>
          exact maintains_pushValue (fact_valueFromSignature (sizeOf_recordField hlayout htype))

theorem maintains_popVariant :
    Maintains (FactsAt module point.function) (popVariant point) fun _ => True := by
  unfold popVariant
  apply (maintains_popAny _ _).bind
  intro receiver _
  apply Maintains.ite
  · exact fun _ => maintains_reject
  · intro _
    apply Maintains.ite
    · exact fun _ => maintains_reject
    · exact fun _ => maintains_pure trivial

theorem maintains_variantCase {I : AbstractState → Prop} :
    Maintains I (variantCase module point) fun entry =>
      ∃ (layout : VariantLayout) (caseIndex : ℕ), module.variantLayouts[entry.1]? = some layout ∧
        layout.cases[caseIndex]? = some entry.2 := by
  unfold variantCase
  apply (maintains_requireEntry _ _ _ _ _).bind
  rintro ⟨index, layout⟩ hlayout
  apply (maintains_requireEntry _ _ _ _ _).bind
  rintro ⟨caseIndex, caseLayout⟩ hcase
  exact maintains_pure ⟨layout, caseIndex, hlayout, hcase⟩

theorem maintains_transferCall :
    Maintains (FactsAt module point.function) (transferCall conforms module point)
      fun _ => True := by
  unfold transferCall
  apply (maintains_requireEntry _ _ _ _ _).bind
  rintro ⟨index, callee⟩ hcallee
  have hcall : Maintains (FactsAt module point.function) (do
      popConforming conforms point .badCallArity .badCallArgKind
        (fun i => "argument " ++ toString i)
        (fun i => "argument " ++ toString i ++ " does not conform to callee parameter " ++
          (callee.signature.parameters.getD i .nil).name)
        (parameterSignatures callee.signature)
      pushValue (valueFromSignature (returnSignature callee.signature))) fun _ => True := by
    apply (maintains_popConforming _ _ _ _ _).bind
    exact fun _ _ => maintains_pushValue (fact_valueFromSignature (sizeOf_callee hcallee))
  apply Maintains.ite
  · exact fun _ => (maintains_reject (Q := fun _ => True)).bind fun _ _ => hcall
  · exact fun _ => hcall

theorem maintains_transferCallClosure :
    Maintains (FactsAt module point.function) (transferCallClosure conforms point)
      fun _ => True := by
  unfold transferCallClosure
  apply (maintains_popAny _ _).bind
  intro callee hcallee
  split
  case h_1 signature hkind hfunction =>
    split
    case h_1 result hsignature hresult =>
      apply (maintains_popConforming _ _ _ _ _).bind
      exact fun _ _ => maintains_pushValue
        (fact_valueFromSignature (hcallee.1.sizeOf_functionReturn hfunction hresult))
    case h_2 => exact maintains_reject
  case h_2 => exact maintains_reject

/-- An initializer: the arity check, the checks of its values, and the push. -/
theorem maintains_initializer (underflow mismatch : VerifierReason) (arity : String → String)
    (context detail : ℕ → String) (types : List SignatureValue)
    (hvalue : FactAt module point.function value) :
    Maintains (FactsAt module point.function) ((do
      let height := (← get).stack.length
      if height < types.length then point.reject underflow (arity (toString height))
      popConforming conforms point underflow mismatch context detail types
      pushValue value) : TransferM Unit) fun _ => True := by
  have hrest : Maintains (FactsAt module point.function) (do
      popConforming conforms point underflow mismatch context detail types
      pushValue value) fun _ => True :=
    (maintains_popConforming _ _ _ _ _).bind fun _ _ => maintains_pushValue hvalue
  apply maintains_get.bind
  intro state _
  apply Maintains.ite
  · exact fun _ => (maintains_reject (Q := fun _ => True)).bind fun _ _ => hrest
  · exact fun _ => hrest

theorem maintains_transferStraightLine (hpc : point.pc < point.function.code.length) :
    Maintains (FactsAt module point.function) (transferStraightLine conforms module point)
      fun _ => True := by
  have hint : FactAt module point.function int64Value := fact_valueWithKind nofun
  have hbool : FactAt module point.function boolValue := fact_valueWithKind nofun
  have hstr : FactAt module point.function strValue := fact_valueWithKind nofun
  unfold transferStraightLine
  dsimp only
  generalize hop : point.instruction.op = op
  cases op
  case constantI64 => exact maintains_pushValue hint
  case pushStr =>
    exact (maintains_requireEntry _ _ _ _ _).bind fun _ _ => maintains_pushValue hstr
  case strLen | strToI64 | i64Abs | builderLen =>
    exact (maintains_popExpect _ _ _ _).bind fun _ _ => maintains_pushValue hint
  case strEq | strLt | lessI64 =>
    exact (maintains_popTwo _ _ _ _).bind fun _ _ => maintains_pushValue hbool
  case strConcat => exact (maintains_popTwo _ _ _ _).bind fun _ _ => maintains_pushValue hstr
  case strIntern | i64ToStr | boolToStr | builderToStr =>
    exact (maintains_popExpect _ _ _ _).bind fun _ _ => maintains_pushValue hstr
  case strSub =>
    apply (maintains_popTwo _ _ _ _).bind
    intro _ _
    exact (maintains_popExpect _ _ _ _).bind fun _ _ => maintains_pushValue hstr
  case strIndex | arrayGet =>
    apply (maintains_popExpect _ _ _ _).bind
    intro _ _
    exact (maintains_popExpect _ _ _ _).bind fun _ _ => maintains_pushValue hint
  case print | builderClear =>
    exact (maintains_popExpect _ _ _ _).bind fun _ _ => maintains_pure trivial
  case nil =>
    apply maintains_pushValue
    exact .plain (plain_of_shape (shape_flat nofun nofun (not_mem_sites rfl) (not_mem_sites rfl)
      rfl rfl rfl nofun nofun (of_decide_eq_true rfl)))
  case allocWeak =>
    apply (maintains_popReference _ _ _).bind
    exact fun target htarget => maintains_pushValue (fact_weakValue htarget.1.plain htarget.2)
  case weakGet =>
    apply (maintains_popAny _ _).bind
    intro receiver hreceiver
    split
    case h_1 target hkind htarget =>
      apply maintains_pushValue
      cases hreceiver.1 with
      | plain hplain =>
        exact fact_maybeReferenceValue (hplain.shape.target target htarget)
          (hplain.shape.alive target htarget)
      | maybe => exact nomatch hkind
    case h_2 => exact maintains_reject
  case allocEphemeron =>
    dsimp only
    split
    case h_1 => exact maintains_reject
    case h_2 layout hlayout =>
      apply (maintains_popAny _ _).bind
      intro value _
      apply (maintains_popReference _ _ _).bind
      intro key _
      apply (maintains_requireConforming _ _ _).bind
      intro _ _
      apply (maintains_requireConforming _ _ _).bind
      exact fun _ _ => maintains_pushValue (fact_ephemeronValue
        (sizeOf_ephemeronSignature (entryOperand_getElem? hlayout)))
  case ephemeronKey | ephemeronValue | ephemeronSetValue => exact maintains_transferEphemeron
  case isNil =>
    apply (maintains_popAny _ _).bind
    intro value _
    apply Maintains.ite
    · exact fun _ => maintains_reject
    · intro _
      apply maintains_pushValue
      exact .plain (plain_of_shape (shape_flat nofun nofun (not_mem_sites rfl) (not_mem_sites rfl)
        rfl rfl rfl nofun nofun (of_decide_eq_true rfl)))
  case addI64 => exact (maintains_popTwo _ _ _ _).bind fun _ _ => maintains_pushValue hint
  case allocBuilder => exact maintains_pushValue (fact_valueWithKind nofun)
  case builderAppend =>
    apply (maintains_popExpect _ _ _ _).bind
    intro _ _
    exact (maintains_popExpect _ _ _ _).bind fun _ _ => maintains_pure trivial
  case allocPair =>
    apply (maintains_popAny _ _).bind
    intro right hright
    apply (maintains_popAny _ _).bind
    intro left hleft
    have hallocated : FactAt module point.function (withoutProvenance left) ∧
        FactAt module point.function (withoutProvenance right) :=
      ⟨fact_withoutProvenance hleft.1, fact_withoutProvenance hright.1⟩
    apply (maintains_modify fun state hstate => ?_).bind
    · exact fun _ _ => maintains_pushValue (fact_siteValue hpc).1
    · apply hstate.setFields
      intro fields hfields
      cases hexisting : state.fieldsBySite.getD point.pc none with
      | none =>
        rw [hexisting] at hfields
        cases hfields
        exact hallocated
      | some existing =>
        rw [hexisting] at hfields
        cases hfields
        have hfacts := fact_getD hstate hexisting
        exact ⟨fact_joinValueInto hfacts.1 hallocated.1, fact_joinValueInto hfacts.2 hallocated.2⟩
  case allocRecord =>
    apply (maintains_requireEntry _ _ _ _ _).bind
    rintro ⟨index, layout⟩ _
    exact maintains_initializer _ _ (fun height => _ ++ height) _ _ _ fact_nominal.1
  case recordGet | recordSet => exact maintains_transferRecordAccess
  case allocVariant =>
    apply maintains_variantCase.bind
    rintro ⟨index, caseLayout⟩ _
    exact maintains_initializer _ _ (fun height => _ ++ height) _ _ _ fact_nominal.2
  case variantTag =>
    apply maintains_popVariant.bind
    exact fun _ _ => maintains_pushValue hint
  case variantGet =>
    apply maintains_variantCase.bind
    rintro ⟨index, caseLayout⟩ ⟨layout, caseIndex, hlayout, hcase⟩
    apply (maintains_requireEntry _ _ _ _ _).bind
    rintro ⟨field, type⟩ htype
    apply maintains_popVariant.bind
    intro receiver _
    apply Maintains.ite
    · exact fun _ => maintains_reject
    · exact fun _ => maintains_pushValue
        (fact_valueFromSignature (sizeOf_variantField hlayout hcase htype))
  case tryBegin | tryEnd =>
    apply Maintains.ite
    · exact fun _ => maintains_reject
    · exact fun _ => maintains_pure trivial
  case allocArray =>
    exact (maintains_popTwo _ _ _ _).bind fun _ _ => maintains_pushValue (fact_valueWithKind nofun)
  case arraySet =>
    apply (maintains_popTwo _ _ _ _).bind
    intro _ _
    exact (maintains_popExpect _ _ _ _).bind fun _ _ => maintains_pure trivial
  case arrayLen =>
    apply (maintains_popAny _ _).bind
    intro _ _
    apply Maintains.ite
    · exact fun _ => maintains_reject
    · exact fun _ => maintains_pushValue hint
  case allocRefArray =>
    apply (maintains_popReference _ _ _).bind
    intro init hinit
    apply (maintains_popExpect _ _ _ _).bind
    intro _ _
    have helement : ElementFactAt module point.function (withoutProvenance init) :=
      ⟨hinit.1.plain.withoutProvenance, hinit.1.nonnil⟩
    apply (maintains_modify fun state hstate => hstate.setElement helement).bind
    exact fun _ _ => maintains_pushValue (fact_siteValue hpc).2
  case refArrayGet =>
    apply (maintains_popExpect _ _ _ _).bind
    intro _ _
    apply (maintains_popExpect _ _ _ _).bind
    intro receiver hreceiver
    apply maintains_get.bind
    intro state hstate
    split
    case h_1 loaded hloaded =>
      exact maintains_pushValue (fact_loadRefArrayElement hstate hreceiver.1 hloaded)
    case h_2 => exact maintains_reject
  case refArraySet =>
    apply (maintains_popReference _ _ _).bind
    intro value hvalue
    apply (maintains_popExpect _ _ _ _).bind
    intro _ _
    apply (maintains_popExpect _ _ _ _).bind
    intro receiver _
    apply maintains_commitOrReject
    intro state state' hstate hstored
    exact facts_storeRefArrayElement hstate ⟨hvalue.1.plain.withoutProvenance, hvalue.1.nonnil⟩
      hstored
  case allocMap =>
    apply (maintains_requireEntry _ _ _ _ _).bind
    rintro ⟨index, layout⟩ hlayout
    exact maintains_pushValue (fact_mapValue (sizeOf_mapSignature hlayout))
  case mapGet | mapHas =>
    apply (maintains_popAny _ _).bind
    intro key _
    apply (maintains_popMap _ _).bind
    rintro ⟨keyType, valueType⟩ htypes
    apply (maintains_requireConforming _ _ _).bind
    intro _ _
    apply maintains_pushValue
    split
    · exact hbool
    · exact fact_valueFromSignature htypes.2
  case mapSet =>
    apply (maintains_popAny _ _).bind
    intro stored _
    apply (maintains_popAny _ _).bind
    intro key _
    apply (maintains_popMap _ _).bind
    rintro ⟨keyType, valueType⟩ _
    apply (maintains_requireConforming _ _ _).bind
    exact fun _ _ => maintains_requireConforming _ _ _
  case mapLen =>
    apply (maintains_popMap _ _).bind
    exact fun _ _ => maintains_pushValue hint
  case mapKeyAt | mapValueAt =>
    apply (maintains_popExpect _ _ _ _).bind
    intro _ _
    apply (maintains_popMap _ _).bind
    rintro ⟨keyType, valueType⟩ htypes
    apply maintains_pushValue
    apply fact_valueFromSignature
    split
    · exact htypes.1
    · exact htypes.2
  case getLeft | getRight =>
    apply (maintains_popExpect _ _ _ _).bind
    intro receiver hreceiver
    apply maintains_get.bind
    intro state hstate
    split
    case h_1 loaded hloaded =>
      exact maintains_pushValue (fact_loadPairField hstate hreceiver.1 hloaded)
    case h_2 => exact maintains_reject
  case setLeft | setRight =>
    apply (maintains_popAny _ _).bind
    intro value hvalue
    apply (maintains_popExpect _ _ _ _).bind
    intro receiver _
    apply maintains_commitOrReject
    intro state state' hstate hstored
    exact facts_storePairField hstate (fact_withoutProvenance hvalue.1) hstored
  case loadLocal =>
    dsimp only
    split
    case h_1 => exact maintains_reject
    case h_2 index hindex =>
      apply maintains_get.bind
      intro state hstate
      split
      case h_1 => exact maintains_reject
      case h_2 value hvalue =>
        apply Maintains.ite
        · exact fun _ => maintains_reject
        · intro hpoison
          exact maintains_pushValue
            ((fact_local hstate hvalue).withOrigins (kind_ne_of_not_isPoison hpoison) _ _)
  case storeLocal =>
    dsimp only
    split
    case h_1 => exact maintains_reject
    case h_2 index hindex =>
      apply (maintains_popAny _ _).bind
      intro stored hstored
      apply maintains_modify
      intro state hstate
      exact { hstate.setLocal (fact_withoutProvenance hstored.1) with }
  case collect | jump | jumpIfFalse | throw | tailCall | ret => exact maintains_pure trivial
  case allocClosure =>
    apply (maintains_requireEntry _ _ _ _ _).bind
    rintro ⟨index, layout⟩ hlayout
    apply (maintains_popConforming _ _ _ _ _).bind
    exact fun _ _ => maintains_pushValue (fact_valueFromSignature (sizeOf_closureLayout hlayout).1)
  case callClosure => exact maintains_transferCallClosure
  case loadCapture =>
    dsimp only
    split
    case h_1 => exact maintains_reject
    case h_2 layout hlayout =>
      obtain ⟨index, -, hentry⟩ := Option.bind_eq_some_iff.mp hlayout
      apply (maintains_requireEntry _ _ _ _ _).bind
      rintro ⟨capture, type⟩ htype
      exact maintains_pushValue (fact_valueFromSignature ((sizeOf_closureLayout hentry).2 htype))
  case call => exact maintains_transferCall

end Instructions

/-! ## Successors -/

/-- The handlers of a function lead to its instructions. -/
def HandlersInCode (function : Function) : Prop :=
  ∀ handler ∈ function.exceptionHandlers, handler.target < function.code.length

/-- Where an analysis may go: to an instruction, in a state that holds facts. -/
def SuccessorAt (module : Module) (function : Function) (successor : Successor) : Prop :=
  successor.1 < function.code.length ∧ FactsAt module function successor.2

section Successors

variable {module : Module} {point : Point} {conforms : Conformance}
  {state state' : AbstractState} {successors : List Successor}

theorem maintains_requireTarget {I : AbstractState → Prop} :
    Maintains I (requireTarget point) fun target => target < point.function.code.length := by
  unfold requireTarget
  split
  case h_1 target htarget => exact maintains_pure (indexOperand_lt htarget)
  case h_2 => exact maintains_reject

theorem successors_pushFallthrough (hstate : FactsAt module point.function state)
    (h : pushFallthrough point state = .ok successors) :
    ∀ t ∈ successors, SuccessorAt module point.function t := by
  unfold pushFallthrough at h
  split at h
  case isTrue => exact nomatch h
  case isFalse hlt =>
    cases h
    intro t ht
    cases List.mem_singleton.mp ht
    exact ⟨not_le.mp hlt, hstate⟩

theorem successor_exception (hhandlers : HandlersInCode point.function)
    (hstate : FactsAt module point.function state) {handler : ExceptionHandler}
    (hhandler : handler ∈ point.function.exceptionHandlers) :
    SuccessorAt module point.function (exceptionSuccessor handler state) := by
  refine ⟨hhandlers handler hhandler, { hstate with stack := fun value hvalue => ?_ }⟩
  cases List.mem_singleton.mp hvalue
  exact fact_nominal.2

/-- A loop that selects an entry of a list finds one there. -/
theorem mem_of_foldl_select {α : Type} {select : Option α → α → Option α}
    (hselect : ∀ selected entry, select selected entry = some entry ∨
      select selected entry = selected) {entries : List α} {selected : Option α} {found : α}
    (h : entries.foldl select selected = some found) : found ∈ entries ∨ selected = some found := by
  induction entries generalizing selected with
  | nil => exact .inr h
  | cons entry entries ih =>
    rcases ih h with hmem | heq
    · exact .inl (List.mem_cons_of_mem _ hmem)
    · rcases hselect selected entry with hentry | hsame
      · rw [hentry] at heq
        cases heq
        exact .inl List.mem_cons_self
      · exact .inr (hsame ▸ heq)

theorem mem_enclosingHandler {function : Function} {pc : ℕ} {layout : Option ℕ}
    {handler : ExceptionHandler} (h : enclosingHandler function pc layout = some handler) :
    handler ∈ function.exceptionHandlers := by
  refine (mem_of_foldl_select (fun selected entry => ?_) h).elim id nofun
  split
  · exact .inl rfl
  · exact .inr rfl

/-- Refining a local keeps the facts of a state when it keeps those of the local. -/
theorem facts_refineLocal {refine : AbstractValue → AbstractValue} {tested : Option ℕ}
    (hrefine : ∀ value, FactAt module point.function value →
      FactAt module point.function (refine value))
    (hstate : FactsAt module point.function state) :
    FactsAt module point.function (refineLocal refine tested state) := by
  unfold refineLocal
  split
  case h_1 => exact hstate
  case h_2 tested =>
    split
    case h_1 => exact hstate
    case h_2 value hvalue => exact hstate.setLocal (hrefine value (fact_local hstate hvalue))

theorem fact_refineNil {value : AbstractValue} (h : FactAt module point.function value) :
    FactAt module point.function (refineNil value) := by
  unfold refineNil
  split
  · exact .plain (plain_of_shape (shape_flat nofun nofun (not_mem_sites rfl) (not_mem_sites rfl)
      rfl rfl rfl nofun nofun (of_decide_eq_true rfl)))
  · exact h

theorem fact_refineNonnil {value : AbstractValue} (h : FactAt module point.function value) :
    FactAt module point.function (refineNonnil value) := by
  unfold refineNonnil
  cases h with
  | plain h =>
    split
    case h_1 hkind _ => exact absurd hkind h.kind_ne
    case h_2 =>
      by_cases hpoison : value.kind = .poison
      · rw [h.shape.poison hpoison]
        exact .plain (plain_of_shape shape_poisonValue)
      · exact .plain (plain_of_shape (h.shape.nonnil hpoison))
  | maybe source test hne h => exact .plain h.withoutProvenance

theorem successors_transferInstruction (hpc : point.pc < point.function.code.length)
    (hhandlers : HandlersInCode point.function) (hstate : FactsAt module point.function state)
    (h : transferInstruction conforms module point state = .ok successors) :
    ∀ t ∈ successors, SuccessorAt module point.function t := by
  unfold transferInstruction at h
  split at h
  case h_1 =>
    obtain ⟨⟨target, middle⟩, hrun, h⟩ := bind_eq_ok.mp h
    cases h
    obtain ⟨htarget, hmiddle⟩ := maintains_requireTarget state target middle hstate hrun
    intro t ht
    cases List.mem_singleton.mp ht
    exact ⟨htarget, hmiddle⟩
  case h_2 =>
    obtain ⟨⟨target, middle⟩, hrun, h⟩ := bind_eq_ok.mp h
    obtain ⟨htarget, hmiddle⟩ := maintains_requireTarget state target middle hstate hrun
    obtain ⟨⟨condition, popped⟩, hrun', h⟩ := bind_eq_ok.mp h
    obtain ⟨-, hpopped⟩ := maintains_popExpect _ _ _ _ middle condition popped hmiddle hrun'
    obtain ⟨fallthrough, hfallthrough, h⟩ := bind_eq_ok.mp h
    cases h
    intro t ht
    rcases List.mem_cons.mp ht with rfl | ht
    · exact ⟨htarget, facts_refineLocal (fun _ => fact_refineNonnil) hpopped⟩
    · exact successors_pushFallthrough (facts_refineLocal (fun _ => fact_refineNil) hpopped)
        hfallthrough t ht
  case h_3 =>
    obtain ⟨⟨layout, middle⟩, hrun, h⟩ := bind_eq_ok.mp h
    have hthrow : Maintains (FactsAt module point.function) (transferThrow point) fun _ => True := by
      unfold transferThrow
      apply (maintains_popAny _ _).bind
      intro thrown _
      apply Maintains.ite
      · exact fun _ => maintains_reject
      · exact fun _ => maintains_pure trivial
    obtain ⟨-, hmiddle⟩ := hthrow state layout middle hstate hrun
    dsimp only at h
    split at h
    case h_1 handler hhandler =>
      cases h
      intro t ht
      cases List.mem_singleton.mp ht
      exact successor_exception hhandlers hmiddle (mem_enclosingHandler hhandler)
    case h_2 =>
      cases h
      exact nofun
  case h_4 =>
    obtain ⟨_, -, h⟩ := bind_eq_ok.mp h
    cases h
    exact nofun
  case h_5 =>
    obtain ⟨_, -, h⟩ := bind_eq_ok.mp h
    cases h
    exact nofun
  case h_6 =>
    obtain ⟨⟨_, middle⟩, hrun, h⟩ := bind_eq_ok.mp h
    obtain ⟨-, hmiddle⟩ := maintains_transferStraightLine hpc state _ middle hstate hrun
    exact successors_pushFallthrough hmiddle h

theorem mem_exceptionHandlersAt {handler : ExceptionHandler}
    (h : handler ∈ exceptionHandlersAt point) : handler ∈ point.function.exceptionHandlers := by
  unfold exceptionHandlersAt at h
  split at h
  case h_1 =>
    rw [Option.mem_toList, Option.map_eq_some_iff] at h
    obtain ⟨⟨index, handler⟩, hentry, rfl⟩ := h
    exact List.mem_of_getElem? (entryOperand_getElem? hentry)
  case h_2 => exact mem_enclosingHandler (Option.mem_toList.mp h)
  case h_3 => exact mem_enclosingHandler (Option.mem_toList.mp h)
  case h_4 => exact nomatch h

/-- Everywhere an instruction leads, the analysis finds an instruction and holds facts. -/
theorem successors_successorsAt (hpc : point.pc < point.function.code.length)
    (hhandlers : HandlersInCode point.function) (hstate : FactsAt module point.function state)
    (h : successorsAt conforms module point state = .ok successors) :
    ∀ t ∈ successors, SuccessorAt module point.function t := by
  obtain ⟨direct, hdirect, h⟩ := bind_eq_ok.mp h
  cases h
  intro t ht
  rcases List.mem_append.mp ht with ht | ht
  · exact successors_transferInstruction hpc hhandlers hstate hdirect t ht
  · obtain ⟨handler, hhandler, rfl⟩ := List.mem_map.mp ht
    exact successor_exception hhandlers hstate (mem_exceptionHandlersAt hhandler)

end Successors

end LanguageRuntime.Bytecode
