import LanguageRuntime.Frontend.Inference

/-!
# Inference finds the only substitution

Equality of types is an equivalence on settled types, so the inference is an instance of
first-order matching: a pattern against an argument type infers what `Matches` says. The
inference of a call then succeeds exactly when one substitution matches every parameter with
its argument and no other does, whatever the order of the arguments.
-/

namespace LanguageRuntime.Frontend

open Library Matching

/-! ## Equality is an equivalence -/

mutual

theorem equals_refl : ∀ type : TypeSpec, type.Settled → type.equals type = true
  | { kind, left, right, element, key, value, weakTarget, functionParameters, functionReturn,
      name, position, namedTypeIndex, recordLayoutIndex, variantLayoutIndex,
      typeParameterIndex, genericArguments, genericDeclarationIndex }, h => by
    rw [TypeSpec.Settled] at h
    obtain ⟨hkind, hleft, hright, helement, hkey, hvalue, htarget, hparameters, hreturn, -⟩ := h
    have hleft := equalsOption_refl left hleft
    have hright := equalsOption_refl right hright
    have helement := equalsOption_refl element helement
    have hkey := equalsOption_refl key hkey
    have hvalue := equalsOption_refl value hvalue
    have htarget := equalsOption_refl weakTarget htarget
    have hparameters := equalsList_refl functionParameters hparameters
    have hreturn := equalsOption_refl functionReturn hreturn
    cases kind <;> simp only [TypeSpec.Complete] at hkind
    all_goals simp [TypeSpec.equals, TypeSpec.hasPairFields, hleft, hright, helement, hkey,
      hvalue, htarget, hparameters, hreturn, hkind]
    cases left <;> cases right <;> simp

theorem equalsOption_refl : ∀ type : Option TypeSpec, SettledOption type →
    equalsOption type type = true
  | none, _ => rfl
  | some type, h => equals_refl type h

theorem equalsList_refl : ∀ types : List TypeSpec, SettledList types →
    equalsList types types = true
  | [], _ => rfl
  | type :: types, h => by
    rw [SettledList] at h
    rw [equalsList, equals_refl type h.1, equalsList_refl types h.2, Bool.true_and]

end

mutual

/-- Equal types are equal to the same types. -/
theorem equals_congr : ∀ a b c : TypeSpec, a.Settled → b.Settled → c.Settled →
    a.equals b = true → a.equals c = b.equals c
  | { kind, left, right, element, key, value, weakTarget, functionParameters, functionReturn,
      name, position, namedTypeIndex, recordLayoutIndex, variantLayoutIndex,
      typeParameterIndex, genericArguments, genericDeclarationIndex }, b, c, ha, hb, hc, h => by
    have hleft := equalsOption_congr left
    have hright := equalsOption_congr right
    have helement := equalsOption_congr element
    have hkey := equalsOption_congr key
    have hvalue := equalsOption_congr value
    have htarget := equalsOption_congr weakTarget
    have hparameters := equalsList_congr functionParameters
    have hreturn := equalsOption_congr functionReturn
    obtain ⟨kind', left', right', element', key', value', weakTarget', functionParameters',
      functionReturn', name', position', namedTypeIndex', recordLayoutIndex',
      variantLayoutIndex', typeParameterIndex', genericArguments',
      genericDeclarationIndex'⟩ := b
    obtain ⟨kind'', left'', right'', element'', key'', value'', weakTarget'',
      functionParameters'', functionReturn'', name'', position'', namedTypeIndex'',
      recordLayoutIndex'', variantLayoutIndex'', typeParameterIndex'', genericArguments'',
      genericDeclarationIndex''⟩ := c
    rw [TypeSpec.Settled] at ha hb hc
    obtain ⟨hac, hal, har, hae, hak, hav, hat, hap, haf, -⟩ := ha
    obtain ⟨hbc, hbl, hbr, hbe, hbk, hbv, hbt, hbp, hbf, -⟩ := hb
    obtain ⟨hcc, hcl, hcr, hce, hck, hcv, hct, hcp, hcf, -⟩ := hc
    have hleft := hleft left' left'' hal hbl hcl
    have hright := hright right' right'' har hbr hcr
    have helement := helement element' element'' hae hbe hce
    have hkey := hkey key' key'' hak hbk hck
    have hvalue := hvalue value' value'' hav hbv hcv
    have htarget := htarget weakTarget' weakTarget'' hat hbt hct
    have hparameters := hparameters functionParameters' functionParameters'' hap hbp hcp
    have hreturn := hreturn functionReturn' functionReturn'' haf hbf hcf
    by_cases hkind : kind = kind'
    swap
    · simp [TypeSpec.equals, hkind] at h
    by_cases hkind' : kind' = kind''
    swap
    · simp [TypeSpec.equals, hkind, hkind']
    subst hkind hkind'
    cases kind with
    | int64 | bool | str | builder | nil | invalid => rfl
    | typeParameter =>
      simp only [TypeSpec.equals, ne_eq, not_true_eq_false, if_false, Bool.and_eq_true,
        decide_eq_true_eq] at h ⊢
      rw [h.1, h.2]
    | named | record | variant =>
      simp only [TypeSpec.Complete] at hac hbc hcc
      simp only [TypeSpec.equals, ne_eq, not_true_eq_false, if_false, hac, hbc, hcc,
        Bool.and_self, if_true, decide_eq_true_eq] at h ⊢
      rw [h]
    | array =>
      simp only [TypeSpec.equals, ne_eq, not_true_eq_false, if_false] at h ⊢
      exact helement h
    | weak =>
      simp only [TypeSpec.equals, ne_eq, not_true_eq_false, if_false] at h ⊢
      exact htarget h
    | map | ephemeron =>
      simp only [TypeSpec.equals, ne_eq, not_true_eq_false, if_false, Bool.and_eq_true] at h ⊢
      rw [hkey h.1, hvalue h.2]
    | function =>
      simp only [TypeSpec.Complete] at hac hbc hcc
      simp only [TypeSpec.equals, ne_eq, not_true_eq_false, if_false, hac, hbc, hcc,
        Bool.true_and, Bool.and_eq_true] at h ⊢
      rw [hreturn h.1, hparameters h.2]
    | pair =>
      simp only [TypeSpec.equals, TypeSpec.hasPairFields, ne_eq, not_true_eq_false, if_false,
        decide_true, Bool.true_and] at h ⊢
      cases hfields : left.isSome && right.isSome with
      | true =>
        simp only [hfields, if_true, Bool.and_eq_true] at h
        have hfields' : (left'.isSome && right'.isSome) = true := by simp [h.1.1]
        simp only [hfields', if_true, hleft h.1.2, hright h.2]
      | false =>
        simp only [hfields, Bool.false_eq_true, if_false, Bool.not_eq_true'] at h ⊢
        simp only [h, Bool.false_eq_true, if_false]

theorem equalsOption_congr : ∀ a b c : Option TypeSpec, SettledOption a → SettledOption b →
    SettledOption c → equalsOption a b = true → equalsOption a c = equalsOption b c
  | none, none, _, _, _, _, _ => rfl
  | none, some _, _, _, _, _, h => nomatch h
  | some _, none, _, _, _, _, h => nomatch h
  | some _, some _, none, _, _, _, _ => rfl
  | some a, some b, some c, ha, hb, hc, h => equals_congr a b c ha hb hc h

theorem equalsList_congr : ∀ a b c : List TypeSpec, SettledList a → SettledList b →
    SettledList c → equalsList a b = true → equalsList a c = equalsList b c
  | [], [], _, _, _, _, _ => rfl
  | [], _ :: _, _, _, _, _, h => nomatch h
  | _ :: _, [], _, _, _, _, h => nomatch h
  | _ :: _, _ :: _, [], _, _, _, _ => rfl
  | a :: as, b :: bs, c :: cs, ha, hb, hc, h => by
    rw [SettledList] at ha hb hc
    rw [equalsList, Bool.and_eq_true] at h
    rw [equalsList, equalsList, equals_congr a b c ha.1 hb.1 hc.1 h.1,
      equalsList_congr as bs cs ha.2 hb.2 hc.2 h.2]

end

/-- Equality of settled types is an equivalence. -/
theorem equals_lawful : Lawful TypeSpec.Settled TypeSpec.equals where
  refl := equals_refl
  symm a b ha hb h := by
    rw [← equals_congr a b a ha hb ha h]
    exact equals_refl a ha
  trans a b c ha hb hc hab hbc := by
    rw [equals_congr a b c ha hb hc hab]
    exact hbc

theorem equalsList_iff_forall₂ : ∀ a b : List TypeSpec,
    equalsList a b = true ↔ List.Forall₂ (fun a b => a.equals b = true) a b
  | [], [] => by simp [equalsList]
  | [], _ :: _ => by simp [equalsList]
  | _ :: _, [] => by simp [equalsList]
  | a :: as, b :: bs => by
    rw [equalsList, Bool.and_eq_true, List.forall₂_cons, equalsList_iff_forall₂ as bs]

/-! ## A pattern against a type -/

/-- A step that infers the given matches. -/
def Inferred (step : Step TypeSpec) (meaning : List TypeSpec → Prop) : Prop :=
  ∃ mentions, Infers TypeSpec.Settled TypeSpec.equals step meaning mentions

theorem inferred_guard (test : Bool) : Inferred (guard test) fun _ => test = true :=
  ⟨_, Infers.guard test⟩

theorem inferred_fail : Inferred (guard false) fun _ => False :=
  ⟨_, (Infers.guard false).congr fun _ => by simp⟩

theorem Inferred.congr {step : Step TypeSpec} {meaning meaning' : List TypeSpec → Prop}
    (h : Inferred step meaning)
    (hmeaning : ∀ substitution, meaning substitution ↔ meaning' substitution) :
    Inferred step meaning' := by
  obtain ⟨_, h⟩ := h
  exact ⟨_, h.congr hmeaning⟩

/-- A step behind a test. -/
theorem Inferred.guarded {step : Step TypeSpec} {meaning meaning' : List TypeSpec → Prop}
    {test : Bool} (h : Inferred step meaning)
    (hmeaning : ∀ substitution, meaning' substitution ↔ test = true ∧ meaning substitution) :
    Inferred (if test then step else guard false) meaning' := by
  cases test with
  | true => exact h.congr fun substitution => by simp [hmeaning]
  | false => exact inferred_fail.congr fun substitution => by simp [hmeaning]

theorem Inferred.both {first second : Step TypeSpec} {meaning meaning' : List TypeSpec → Prop}
    (hfirst : Inferred first meaning) (hsecond : Inferred second meaning') :
    Inferred (Matching.both first second) fun substitution =>
      meaning substitution ∧ meaning' substitution := by
  obtain ⟨_, hfirst⟩ := hfirst
  obtain ⟨_, hsecond⟩ := hsecond
  exact ⟨_, hfirst.both hsecond⟩

theorem isSome_of_matchesOption {substitution : List TypeSpec} :
    ∀ {pattern actual : Option TypeSpec}, MatchesOption substitution pattern actual →
    pattern.isSome = true ∧ actual.isSome = true
  | some _, some _, _ => ⟨rfl, rfl⟩
  | some _, none, h => h.elim
  | none, _, h => h.elim

theorem length_eq_of_matchesList {substitution : List TypeSpec} :
    ∀ {patterns actuals : List TypeSpec}, MatchesList substitution patterns actuals →
    patterns.length = actuals.length
  | [], [], _ => rfl
  | [], _ :: _, h => h.elim
  | _ :: _, [], h => h.elim
  | _ :: _, _ :: _, h => congrArg Nat.succ (length_eq_of_matchesList h.2)

mutual

theorem inferTypeArguments_inferred : ∀ pattern actual : TypeSpec, actual.Settled →
    Inferred (inferTypeArguments pattern actual) fun substitution =>
      Matches substitution pattern actual
  | { kind, left, right, element, key, value, weakTarget, functionParameters, functionReturn,
      name, position, namedTypeIndex, recordLayoutIndex, variantLayoutIndex,
      typeParameterIndex, genericArguments, genericDeclarationIndex }, actual, h => by
    obtain ⟨kind', left', right', element', key', value', weakTarget', functionParameters',
      functionReturn', name', position', namedTypeIndex', recordLayoutIndex',
      variantLayoutIndex', typeParameterIndex', genericArguments',
      genericDeclarationIndex'⟩ := actual
    have hactual := h
    rw [TypeSpec.Settled] at h
    obtain ⟨-, hal, har, hae, hak, hav, hat, hap, haf, hag⟩ := h
    have hleft := inferOption_inferred left left' hal
    have hright := inferOption_inferred right right' har
    have helement := inferOption_inferred element element' hae
    have hkey := inferOption_inferred key key' hak
    have hvalue := inferOption_inferred value value' hav
    have htarget := inferOption_inferred weakTarget weakTarget' hat
    have hparameters := inferList_inferred functionParameters functionParameters' hap
    have hreturn := inferOption_inferred functionReturn functionReturn' haf
    have harguments := inferList_inferred genericArguments genericArguments' hag
    by_cases hparameter : kind = .typeParameter
    · simp only [inferTypeArguments, Matches, hparameter, if_true]
      cases typeParameterIndex with
      | none => exact inferred_fail.congr fun _ => by simp
      | some index =>
        refine Inferred.congr ⟨_, Infers.bindParameter equals_lawful hactual⟩ fun _ => ?_
        simp
    · cases hgeneric : genericDeclarationIndex with
      | some index =>
        simp only [inferTypeArguments, Matches, hparameter, if_false, Option.isSome_some, if_true]
        apply harguments.guarded
        intro substitution
        rw [Bool.and_eq_true, decide_eq_true_iff, decide_eq_true_iff]
        exact ⟨fun h => ⟨⟨h.1, length_eq_of_matchesList h.2⟩, h.2⟩, fun h => ⟨h.1.1, h.2⟩⟩
      | none =>
        simp only [inferTypeArguments, Matches, hparameter, if_false, Option.isSome_none,
          Bool.false_eq_true]
        by_cases hkind : kind = kind'
        swap
        · simp only [hkind, ne_eq, not_false_eq_true, if_true]
          exact inferred_fail
        subst hkind
        simp only [ne_eq, not_true_eq_false, if_false]
        cases kind with
        | typeParameter => exact absurd rfl hparameter
        | nil | invalid => exact inferred_fail
        | int64 | bool | str | builder | named | record | variant => exact inferred_guard _
        | array =>
          exact helement.guarded fun _ => by
            simp only [Bool.and_eq_true]
            exact ⟨fun h => ⟨isSome_of_matchesOption h, h⟩, fun h => h.2⟩
        | weak =>
          exact htarget.guarded fun _ => by
            simp only [Bool.and_eq_true]
            exact ⟨fun h => ⟨isSome_of_matchesOption h, h⟩, fun h => h.2⟩
        | map | ephemeron =>
          exact (hkey.both hvalue).guarded fun _ => by
            simp only [Bool.and_eq_true]
            exact ⟨fun h => ⟨⟨⟨⟨(isSome_of_matchesOption h.1).1, (isSome_of_matchesOption h.2).1⟩,
              (isSome_of_matchesOption h.1).2⟩, (isSome_of_matchesOption h.2).2⟩, h⟩, fun h => h.2⟩
        | function =>
          exact (hparameters.both hreturn).guarded fun _ => by
            simp only [Bool.and_eq_true, decide_eq_true_iff]
            exact ⟨fun h => ⟨⟨isSome_of_matchesOption h.2, length_eq_of_matchesList h.1⟩, h⟩,
              fun h => h.2⟩
        | pair =>
          by_cases hfields : (left.isSome && right.isSome) = true
          · simp only [hfields, if_true]
            exact (hleft.both hright).guarded fun _ => by
              simp only [TypeSpec.hasPairFields, Bool.and_eq_true, decide_true, true_and]
              exact ⟨fun h => ⟨⟨(isSome_of_matchesOption h.1).2, (isSome_of_matchesOption h.2).2⟩,
                h⟩, fun h => h.2⟩
          · simp only [hfields]
            exact (inferred_guard true).congr fun _ => by simp

theorem inferOption_inferred : ∀ pattern actual : Option TypeSpec, SettledOption actual →
    Inferred (inferOption pattern actual) fun substitution =>
      MatchesOption substitution pattern actual
  | none, _, _ => inferred_fail
  | some _, none, _ => inferred_fail
  | some pattern, some actual, h => inferTypeArguments_inferred pattern actual h

theorem inferList_inferred : ∀ patterns actuals : List TypeSpec, SettledList actuals →
    Inferred (inferList patterns actuals) fun substitution =>
      MatchesList substitution patterns actuals
  | [], [], _ => (inferred_guard true).congr fun _ => by simp [MatchesList]
  | [], _ :: _, _ => inferred_fail
  | _ :: _, [], _ => inferred_fail
  | pattern :: patterns, actual :: actuals, h => by
    rw [SettledList] at h
    exact (inferTypeArguments_inferred pattern actual h.1).both
      (inferList_inferred patterns actuals h.2)

end

/-! ## The arguments of a call -/

theorem inferArguments_inferred : ∀ patterns actuals : List TypeSpec,
    patterns.length = actuals.length → SettledList actuals →
    Inferred (inferArguments patterns actuals) fun substitution =>
      MatchesList substitution patterns actuals
  | [], [], _, _ => (inferred_guard true).congr fun _ => by simp [MatchesList]
  | [], _ :: _, hlength, _ => nomatch hlength
  | _ :: _, [], hlength, _ => nomatch hlength
  | pattern :: patterns, actual :: actuals, hlength, h => by
    rw [SettledList] at h
    obtain ⟨_, hfirst⟩ := inferTypeArguments_inferred pattern actual h.1
    obtain ⟨_, hrest⟩ := inferArguments_inferred patterns actuals (Nat.succ.inj hlength) h.2
    exact ⟨_, hfirst.also hrest⟩

theorem settledList_iff {types : List TypeSpec} :
    SettledList types ↔ ∀ type ∈ types, type.Settled := by
  induction types with
  | nil => simp [SettledList]
  | cons type types ih => rw [SettledList, ih, List.forall_mem_cons]

/-- The bindings are collected when there is none missing, and else a parameter is named. -/
theorem collectBindings_cases : ∀ (parameters : List TypeParameterDecl)
    (bindings : List (Option TypeSpec)), parameters.length = bindings.length →
    (∃ result, collectBindings parameters bindings = .ok result ∧ bindings = result.map some) ∨
    ∃ parameter ∈ parameters, collectBindings parameters bindings = .error parameter ∧
      ∃ index : ℕ, bindings[index]? = some none
  | [], [], _ => .inl ⟨[], rfl, rfl⟩
  | [], _ :: _, h => nomatch h
  | _ :: _, [], h => nomatch h
  | parameter :: _, none :: _, _ =>
    .inr ⟨parameter, List.mem_cons_self, rfl, 0, rfl⟩
  | _ :: parameters, some binding :: bindings, h => by
    obtain ⟨result, hresult, hbindings⟩ | ⟨parameter, hmem, herror, index, hindex⟩ :=
      collectBindings_cases parameters bindings (Nat.succ.inj h)
    · refine .inl ⟨binding :: result, ?_, by rw [hbindings, List.map_cons]⟩
      rw [collectBindings, hresult]
      rfl
    · refine .inr ⟨parameter, List.mem_cons_of_mem _ hmem, ?_, index + 1, hindex⟩
      rw [collectBindings, herror]
      rfl

section Call

variable {position : SourcePosition} {generic : FunctionDecl}
  {arguments substitution : List TypeSpec}

theorem onlyInstance_iff : generic.OnlyInstance arguments substitution ↔
    OnlySolution TypeSpec.Settled TypeSpec.equals
      (fun substitution => MatchesList substitution (generic.parameters.map (·.type)) arguments)
      generic.typeParameters.length substitution := by
  simp only [FunctionDecl.OnlyInstance, FunctionDecl.Instantiates, OnlySolution,
    equalsList_iff_forall₂]

/-- The three ways out of the inference of a call. -/
theorem inferGenericArguments_cases (position : SourcePosition) (generic : FunctionDecl)
    (hsettled : ∀ type ∈ arguments, type.Settled) :
    (∃ result, inferGenericArguments position generic arguments = .ok result ∧
      generic.OnlyInstance arguments result) ∨
    ∃ diagnostic, inferGenericArguments position generic arguments = .error diagnostic ∧
      diagnostic.position = position ∧
      (arguments.length ≠ generic.parameters.length ∧
          diagnostic.message = arityMessage generic arguments.length ∨
        (∃ parameter ∈ generic.typeParameters,
          diagnostic.message = unboundMessage generic parameter) ∨
        diagnostic.message = ambiguousMessage generic) ∧
      ∀ substitution, ¬generic.OnlyInstance arguments substitution := by
  by_cases hlength : arguments.length = generic.parameters.length
  swap
  · refine .inr ⟨_, if_pos hlength, rfl, .inl ⟨hlength, rfl⟩, fun substitution honly => ?_⟩
    have hmatches := length_eq_of_matchesList honly.1.2.2
    rw [List.length_map] at hmatches
    exact hlength hmatches.symm
  obtain ⟨mentions, hinfers⟩ := inferArguments_inferred (generic.parameters.map (·.type)) arguments
    (by rw [List.length_map, hlength]) (settledList_iff.mpr hsettled)
  generalize hrun : inferArguments (generic.parameters.map (·.type)) arguments
    (start generic.typeParameters.length) = run
  obtain ⟨matched, state⟩ := run
  have hsize : generic.typeParameters.length = state.bindings.length := by
    have hextends := (hinfers.extends_ (start generic.typeParameters.length)).1
    rw [hrun] at hextends
    exact (hextends.trans List.length_replicate).symm
  have hunmatched : matched = false →
      ∀ substitution, ¬generic.OnlyInstance arguments substitution := by
    intro hfalse substitution honly
    have hmatched := (matched_of_solves hinfers honly.1).1
    rw [hrun] at hmatched
    exact Bool.false_ne_true (hfalse.symm.trans hmatched)
  simp only [inferGenericArguments, hlength, hrun, ne_eq, not_true_eq_false, if_false]
  obtain ⟨result, hresult, hbindings⟩ | ⟨parameter, hmem, herror, index, hindex⟩ :=
    collectBindings_cases generic.typeParameters state.bindings hsize
  · simp only [hresult]
    cases matched with
    | false =>
      exact .inr ⟨_, rfl, rfl, .inr (.inr rfl), hunmatched rfl⟩
    | true =>
      have hconflict := hinfers.conflict (start generic.typeParameters.length) (by rw [hrun])
      rw [hrun] at hconflict
      have hnone : state.conflict = false := hconflict
      refine .inl ⟨result, by rw [hnone]; rfl, onlyInstance_iff.mpr ?_⟩
      apply onlySolution_of_matched equals_lawful hinfers
      · rw [hrun]
      · rw [hrun, hbindings]
  · simp only [herror]
    refine .inr ⟨_, rfl, rfl, .inr (.inl ⟨parameter, hmem, rfl⟩), fun substitution honly => ?_⟩
    cases matched with
    | false => exact hunmatched rfl substitution honly
    | true =>
      -- two different types for the parameter without a binding
      apply not_onlySolution_of_unbound equals_lawful hinfers (a := int64Type) (b := boolType)
        _ _ rfl _ _ substitution (onlyInstance_iff.mp honly)
      · simp [int64Type, TypeSpec.Settled, TypeSpec.Complete, SettledOption, SettledList]
      · simp [boolType, TypeSpec.Settled, TypeSpec.Complete, SettledOption, SettledList]
      · rw [hrun]
      · exact index
      · rw [hrun, hindex]

theorem onlyInstance_of_ok (hsettled : ∀ type ∈ arguments, type.Settled)
    (h : inferGenericArguments position generic arguments = .ok substitution) :
    generic.OnlyInstance arguments substitution := by
  obtain ⟨result, hok, honly⟩ | ⟨diagnostic, herror, -⟩ :=
    inferGenericArguments_cases position generic hsettled
  · rw [hok] at h
    exact Except.ok.inj h ▸ honly
  · rw [herror] at h
    exact nomatch h

theorem ok_of_onlyInstance (position : SourcePosition) (hsettled : ∀ type ∈ arguments, type.Settled)
    (h : generic.OnlyInstance arguments substitution) :
    ∃ result, inferGenericArguments position generic arguments = .ok result ∧
      equalsList result substitution = true := by
  obtain ⟨result, hok, honly⟩ | ⟨-, -, -, -, hnone⟩ :=
    inferGenericArguments_cases position generic hsettled
  · exact ⟨result, hok, honly.2 substitution h.1⟩
  · exact absurd h (hnone substitution)

end Call

/-! ## The order of the arguments -/

/-- A call of a generic function, as the list of its parameters and of their arguments. -/
def FunctionDecl.withParameters (generic : FunctionDecl) (call : List (Parameter × TypeSpec)) :
    FunctionDecl :=
  { generic with parameters := call.map (·.1) }

theorem matchesList_iff {substitution : List TypeSpec} : ∀ call : List (Parameter × TypeSpec),
    MatchesList substitution ((call.map (·.1)).map (·.type)) (call.map (·.2)) ↔
      ∀ entry ∈ call, Matches substitution entry.1.type entry.2
  | [] => by simp [MatchesList]
  | entry :: call => by
    rw [List.map_cons, List.map_cons, List.map_cons, MatchesList, matchesList_iff call,
      List.forall_mem_cons]

/-- The only instance does not depend on the order. -/
theorem onlyInstance_perm {generic : FunctionDecl} {call call' : List (Parameter × TypeSpec)}
    (hperm : call.Perm call') (substitution : List TypeSpec) :
    (generic.withParameters call).OnlyInstance (call.map (·.2)) substitution ↔
      (generic.withParameters call').OnlyInstance (call'.map (·.2)) substitution := by
  have hinstantiates : ∀ substitution,
      (generic.withParameters call).Instantiates (call.map (·.2)) substitution ↔
        (generic.withParameters call').Instantiates (call'.map (·.2)) substitution := by
    intro substitution
    simp only [FunctionDecl.Instantiates, Solves, FunctionDecl.withParameters, matchesList_iff,
      hperm.mem_iff]
  simp only [FunctionDecl.OnlyInstance, hinstantiates]

/-- The inference of a call succeeds exactly when one substitution, and up to equality no other,
binds every type parameter and matches each parameter with its argument. Otherwise it reports
that the number of arguments is wrong, that a type parameter has no binding, or that the type
arguments are ambiguous. Neither success nor the substitution depends on the order. -/
theorem inferGenericArguments_iff (position : SourcePosition) (generic : FunctionDecl)
    (arguments : List TypeSpec) (hsettled : ∀ type ∈ arguments, type.Settled) :
    (∀ result, inferGenericArguments position generic arguments = .ok result →
      generic.OnlyInstance arguments result) ∧
    (∀ substitution, generic.OnlyInstance arguments substitution →
      ∃ result, inferGenericArguments position generic arguments = .ok result ∧
        equalsList result substitution = true) ∧
    (∀ diagnostic, inferGenericArguments position generic arguments = .error diagnostic →
      diagnostic.position = position ∧
      (arguments.length ≠ generic.parameters.length ∧
          diagnostic.message = arityMessage generic arguments.length ∨
        (∃ parameter ∈ generic.typeParameters,
          diagnostic.message = unboundMessage generic parameter) ∨
        diagnostic.message = ambiguousMessage generic)) ∧
    ∀ call call' : List (Parameter × TypeSpec), call.map (·.2) = arguments → call.Perm call' →
      ∀ result, inferGenericArguments position (generic.withParameters call) arguments =
        .ok result →
      ∃ result', inferGenericArguments position (generic.withParameters call')
        (call'.map (·.2)) = .ok result' ∧ equalsList result result' = true := by
  refine ⟨fun result hresult => ?_, fun substitution honly => ?_, fun diagnostic herror => ?_,
    fun call call' harguments hperm result hresult => ?_⟩
  · exact onlyInstance_of_ok hsettled hresult
  · exact ok_of_onlyInstance position hsettled honly
  · obtain ⟨result, hok, -⟩ | ⟨other, hother, hposition, hmessage, -⟩ :=
      inferGenericArguments_cases position generic hsettled
    · rw [hok] at herror
      exact nomatch herror
    · rw [hother] at herror
      cases Except.error.inj herror
      exact ⟨hposition, hmessage⟩
  · subst harguments
    have honly := onlyInstance_of_ok hsettled hresult
    have hsettled' : ∀ type ∈ call'.map (·.2), type.Settled := fun type htype =>
      hsettled type ((hperm.map _).mem_iff.mpr htype)
    have honly' := (onlyInstance_perm hperm result).mp honly
    obtain ⟨result', hresult', -⟩ := ok_of_onlyInstance position hsettled' honly'
    exact ⟨result', hresult', honly'.2 result' (onlyInstance_of_ok hsettled' hresult').1⟩

/-! ## What is not inferred -/

/-- `fn f<T>(x: T)`. -/
def identityTemplate : FunctionDecl :=
  { name := "f", typeParameters := [{ name := "T" }]
    parameters := [{ name := "x", type := typeParameterType "T" 0 {} }] }

/-- `fn f<T, U>(x: T, y: pair<T, U>)`. -/
def pairTemplate : FunctionDecl :=
  { name := "f", typeParameters := [{ name := "T" }, { name := "U" }] }

def pairCall : List (Parameter × TypeSpec) :=
  [({ name := "x", type := typeParameterType "T" 0 {} }, int64Type),
   ({ name := "y", type := { kind := .pair, left := some (typeParameterType "T" 0 {}),
                              right := some (typeParameterType "U" 1 {}) } },
    { kind := .pair, left := some boolType, right := some { kind := .str } })]

/-- The one substitution that makes the parameter of `f` equal to the type of `nil` is not
inferred, and the order of two arguments decides which error a call is given. -/
theorem nil_not_inferred :
    ((∀ substitution, substitution.length = 1 →
      ((∃ type, substituteType substitution (typeParameterType "T" 0 {}) = .ok type ∧
        type.equals nilType = true) ↔ equalsList substitution [nilType] = true)) ∧
      inferGenericArguments {} identityTemplate [nilType] =
        .error { position := {}, message := unboundMessage identityTemplate { name := "T" } }) ∧
    inferGenericArguments {} (pairTemplate.withParameters pairCall) (pairCall.map (·.2)) =
      .error { position := {}, message := unboundMessage pairTemplate { name := "U" } } ∧
    inferGenericArguments {} (pairTemplate.withParameters pairCall.reverse)
        (pairCall.reverse.map (·.2)) =
      .error { position := {}, message := ambiguousMessage pairTemplate } := by
  refine ⟨⟨fun substitution hlength => ?_, rfl⟩, rfl, rfl⟩
  obtain ⟨type, rfl⟩ := List.length_eq_one_iff.mp hlength
  have hsubstitute : substituteType [type] (typeParameterType "T" 0 {}) =
      .ok { type with position := {} } := rfl
  have hequals : ({ type with position := {} } : TypeSpec).equals nilType =
      type.equals nilType := by
    cases type
    rfl
  simp [hsubstitute, hequals, equalsList]

/-- A call of `f` with an integer. -/
theorem inferGenericArguments_iff_identity :
    inferGenericArguments {} identityTemplate [int64Type] = .ok [int64Type] ∧
      identityTemplate.OnlyInstance [int64Type] [int64Type] := by
  have hsettled : ∀ type ∈ [int64Type], type.Settled := by
    simp [int64Type, TypeSpec.Settled, TypeSpec.Complete, SettledOption, SettledList]
  exact ⟨rfl, (inferGenericArguments_iff {} identityTemplate [int64Type] hsettled).1 _ rfl⟩

end LanguageRuntime.Frontend
