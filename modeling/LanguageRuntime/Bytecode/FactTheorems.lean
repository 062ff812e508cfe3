import LanguageRuntime.Bytecode.SignatureTheorems

/-!
# Facts of places

What the operands, the fields and the elements an instruction works with hold, and what the
values it makes do.
-/

namespace LanguageRuntime.Bytecode

open LanguageRuntime.Library

/-- What the analysis of a function may say of a place. -/
abbrev FactAt (module : Module) (function : Function) : AbstractValue → Prop :=
  Fact function.code.length (typeBound module function) (typeBound module function)

/-- What it may say of it when it is no maybe-reference. -/
abbrev PlainAt (module : Module) (function : Function) : AbstractValue → Prop :=
  Plain function.code.length (typeBound module function) (typeBound module function)

/-- What it may say of the elements of a site. -/
abbrev ElementFactAt (module : Module) (function : Function) : AbstractValue → Prop :=
  ElementFact function.code.length (typeBound module function) (typeBound module function)

/-- The states the analysis of a function works with. -/
abbrev FactsAt (module : Module) (function : Function) : AbstractState → Prop :=
  StateFacts function.code.length (typeBound module function) (typeBound module function)

theorem some_mem_set {α : Type} {table : List (Option α)} {site : ℕ} {entry : Option α} {a : α}
    (h : some a ∈ table.set site entry) : some a ∈ table ∨ entry = some a := by
  rcases List.mem_or_eq_of_mem_set h with hmem | heq
  · exact .inl hmem
  · exact .inr heq.symm

/-! ## Values -/

section Values

variable {value : AbstractValue}

theorem fact_valueWithKind {sites size depth : ℕ} {kind : AbstractKind} (h : kind ≠ .maybeReference) :
    Fact sites size depth (valueWithKind kind) :=
  .plain (plain_of_shape (shape_valueWithKind h))

/-- A maybe-reference to what a fact is about. -/
theorem fact_maybeReferenceValue {sites size depth : ℕ} (h : Plain sites size depth value)
    (hne : value.kind ≠ .poison) : Fact sites size depth (maybeReferenceValue value) :=
  .maybe none none hne h.withoutProvenance ⟨rfl, rfl⟩

theorem plain_valueFromSignature {sites size : ℕ} {signature : SignatureValue}
    (hsize : sizeOf signature ≤ size) : Plain sites size size (valueFromSignature signature) :=
  ((nested_valueFromSignature hsize).mono hsize).plain

theorem fact_mapValue {sites size depth : ℕ} {signature : SignatureValue}
    (hsize : sizeOf signature ≤ size) : Fact sites size depth (mapValue signature) :=
  .plain (plain_of_shape (shape_flat nofun nofun (not_mem_sites rfl) (not_mem_sites rfl) rfl rfl rfl
    nofun (fun s hs => Option.some.inj hs ▸ hsize) (of_decide_eq_true rfl)))

theorem fact_ephemeronValue {sites size depth : ℕ} {signature : SignatureValue}
    (hsize : sizeOf signature ≤ size) : Fact sites size depth (ephemeronValue signature) :=
  .plain (plain_of_shape (shape_flat nofun nofun (not_mem_sites rfl) (not_mem_sites rfl) rfl rfl rfl
    nofun (fun s hs => Option.some.inj hs ▸ hsize) (of_decide_eq_true rfl)))

theorem fact_nominal {sites size depth : ℕ} {layout : ℕ} {includesNil : Bool} :
    Fact sites size depth (recordValue layout includesNil) ∧
      Fact sites size depth (variantValue layout includesNil) :=
  ⟨.plain (plain_of_shape (shape_flat nofun nofun (not_mem_sites rfl) (not_mem_sites rfl) rfl rfl
      rfl nofun nofun (of_decide_eq_true rfl))),
    .plain (plain_of_shape (shape_flat nofun nofun (not_mem_sites rfl) (not_mem_sites rfl) rfl rfl
      rfl nofun nofun (of_decide_eq_true rfl)))⟩

theorem fact_siteValue {sites size depth site : ℕ} (h : site < sites) :
    Fact sites size depth (objectValue site) ∧ Fact sites size depth (refArrayValue site) := by
  have hsite : ∀ other ∈ ({site} : Finset ℕ), other < sites := fun other hother =>
    Finset.mem_singleton.mp hother ▸ h
  exact ⟨.plain (plain_of_shape (shape_flat nofun nofun hsite (not_mem_sites rfl) rfl rfl rfl nofun
      nofun (of_decide_eq_true rfl))),
    .plain (plain_of_shape (shape_flat nofun nofun (not_mem_sites rfl) hsite rfl rfl rfl nofun
      nofun (of_decide_eq_true rfl)))⟩

theorem fact_withoutProvenance {sites size depth : ℕ} (h : Fact sites size depth value) :
    Fact sites size depth (withoutProvenance value) := by
  cases h with
  | plain h => exact .plain h.withoutProvenance
  | maybe source test hne h hbare => exact .maybe none none hne h hbare

/-- A weak reference to what a fact is about. -/
theorem fact_weakValue {sites size depth : ℕ} (h : Plain sites size depth value)
    (hne : value.kind ≠ .poison) : Fact sites size depth (weakValue value) :=
  .plain (plain_of_shape (shape_weakValue
    (plain_of_shape (shape_withoutProvenance (h.shape.nonnil hne))) hne))

theorem fact_local {sites size depth index : ℕ} {state : AbstractState}
    (h : StateFacts sites size depth state) (hvalue : state.locals.getD index none = some value) :
    Fact sites size depth value := by
  apply h.locals value
  rw [List.getD_eq_getElem?_getD] at hvalue
  cases hentry : state.locals[index]? with
  | none => rw [hentry] at hvalue; exact nomatch hvalue
  | some entry =>
    rw [hentry, Option.getD_some] at hvalue
    exact hvalue ▸ List.mem_of_getElem? hentry

theorem Fact.withOrigins {sites size depth : ℕ} (h : Fact sites size depth value)
    (hne : value.kind ≠ .poison) (sourceLocal nilTestLocal : Option ℕ) :
    Fact sites size depth
      { value with sourceLocal := sourceLocal, nilTestLocal := nilTestLocal } := by
  cases h with
  | plain h =>
    exact .plain (plain_of_shape (h.shape.withFlags hne h.shape.tidy.nil sourceLocal
      nilTestLocal))
  | maybe _ _ htarget h hbare => exact .maybe sourceLocal nilTestLocal htarget h hbare

theorem StateFacts.setLocal {sites size depth index : ℕ} {state : AbstractState}
    (h : StateFacts sites size depth state) (hvalue : Fact sites size depth value) :
    StateFacts sites size depth
      { state with locals := state.locals.set index (some value) } :=
  { h with
    locals := fun v hv => (some_mem_set hv).elim (h.locals v) fun heq =>
      Option.some.inj heq ▸ hvalue }

/-- A fact about a reference that is there and is not nil. -/
theorem elementFact_of_fact {sites size depth : ℕ} (h : Fact sites size depth value)
    (hkind : value.kind ≠ .maybeReference) (hnil : value.includesNil = false) :
    ElementFact sites size depth value := by
  cases h with
  | plain h => exact ⟨h, hnil⟩
  | maybe => exact absurd rfl hkind

/-- The types of a map a fact is about are bounded. -/
theorem Fact.sizeOf_map {sites size depth : ℕ} {signature inner : SignatureValue}
    (h : Fact sites size depth value) (hmap : value.signatureMap = some signature)
    (hinner : signature.key = some inner ∨ signature.value = some inner) : sizeOf inner ≤ size := by
  have hsmaller : sizeOf inner < sizeOf signature :=
    sizeOf_pointer (by rcases hinner with h | h <;> simp [h])
  cases h with
  | plain h =>
    have hsize := h.shape.map signature hmap
    omega
  | maybe => exact nomatch hmap

theorem Fact.sizeOf_functionReturn {sites size depth : ℕ} {signature inner : SignatureValue}
    (h : Fact sites size depth value) (hfunction : value.signatureFunction = some signature)
    (hinner : signature.functionReturn = some inner) : sizeOf inner ≤ size := by
  have hsmaller : sizeOf inner < sizeOf signature := sizeOf_pointer (by simp [hinner])
  cases h with
  | plain h =>
    have hsize := h.shape.function signature hfunction
    omega
  | maybe => exact nomatch hfunction

end Values

/-! ## Fields and elements -/

section Fields

variable {module : Module} {function : Function} {state state' : AbstractState}
  {receiver value loaded : AbstractValue}

/-- A loop that may fail keeps what each of its steps keeps. -/
theorem foldlM_option {α β : Type} {P : β → Prop} {f : β → α → Option β}
    (hstep : ∀ b a b', P b → f b a = some b' → P b') :
    ∀ {items : List α} {b b' : β}, P b → items.foldlM f b = some b' → P b'
  | [], b, b', hb, h => by
    cases h
    exact hb
  | item :: items, b, b', hb, h => by
    rw [List.foldlM_cons] at h
    obtain ⟨middle, hmiddle, hrest⟩ := Option.bind_eq_some_iff.mp h
    exact foldlM_option hstep (hstep b item middle hb hmiddle) hrest

theorem Fact.get {sites size depth : ℕ} {fields : PairFields}
    (h : Fact sites size depth fields.left ∧ Fact sites size depth fields.right) (left : Bool) :
    Fact sites size depth (fields.get left) := by
  cases left
  · exact h.2
  · exact h.1

/-- The declared fields of a fact are facts. -/
theorem Fact.signatureFields {sites size depth : ℕ} {fields : PairFields}
    (h : Fact sites size depth value) (hfields : value.signatureFields = some fields) :
    Fact sites size depth fields.left ∧ Fact sites size depth fields.right := by
  cases h with
  | plain h =>
    have hnested := h.shape.fields fields hfields
    exact ⟨.plain hnested.1.plain, .plain hnested.2.plain⟩
  | maybe => exact nomatch hfields

theorem fact_getD {sites size depth : ℕ} {fields : PairFields} {site : ℕ}
    (h : StateFacts sites size depth state) (hfields : state.fieldsBySite.getD site none = some fields) :
    Fact sites size depth fields.left ∧ Fact sites size depth fields.right := by
  apply h.fields fields
  rw [List.getD_eq_getElem?_getD] at hfields
  cases hentry : state.fieldsBySite[site]? with
  | none => rw [hentry] at hfields; exact nomatch hfields
  | some entry =>
    rw [hentry, Option.getD_some] at hfields
    exact hfields ▸ List.mem_of_getElem? hentry

theorem elementFact_getD {sites size depth : ℕ} {element : AbstractValue} {site : ℕ}
    (h : StateFacts sites size depth state)
    (helement : state.refArrayElementsBySite.getD site none = some element) :
    ElementFact sites size depth element := by
  apply h.elements element
  rw [List.getD_eq_getElem?_getD] at helement
  cases hentry : state.refArrayElementsBySite[site]? with
  | none => rw [hentry] at helement; exact nomatch helement
  | some entry =>
    rw [hentry, Option.getD_some] at helement
    exact helement ▸ List.mem_of_getElem? hentry

theorem fact_joinLoaded {sites size depth : ℕ} {loaded : Option AbstractValue}
    (hloaded : ∀ v, loaded = some v → Fact sites size depth v) (hvalue : Fact sites size depth value) :
    Fact sites size depth (joinLoaded loaded value) := by
  unfold joinLoaded
  split
  case h_1 => exact hvalue
  case h_2 loaded => exact (hloaded loaded rfl).join hvalue

/-- What the types of a receiver say of a field is a fact. -/
theorem fact_declaredField {left : Bool} {declared : Option AbstractValue}
    (hreceiver : FactAt module function receiver)
    (h : declaredField module receiver left = some declared) :
    ∀ v, declared = some v → FactAt module function v := by
  have hdeclared (v : AbstractValue)
      (hv : receiver.signatureFields.map (Fields.get · left) = some v) :
      FactAt module function v := by
    obtain ⟨fields, hfields, rfl⟩ := Option.map_eq_some_iff.mp hv
    exact .get (hreceiver.signatureFields hfields) left
  unfold declaredField at h
  simp only at h
  split at h
  case h_1 =>
    cases h
    exact hdeclared
  case h_2 named hnamed =>
    obtain ⟨type, htype, h⟩ := Option.bind_eq_some_iff.mp h
    obtain ⟨fields, hfields, h⟩ := Option.bind_eq_some_iff.mp h
    cases h
    intro v hv
    cases hv
    have hbody : FactAt module function (valueFromSignature type.body) :=
      fact_valueFromSignature (sizeOf_namedType htype)
    exact fact_joinLoaded hdeclared (.get (hbody.signatureFields hfields) left)

theorem fact_loadPairField {left : Bool} (hstate : FactsAt module function state)
    (hreceiver : FactAt module function receiver)
    (h : loadPairField module state receiver left = some loaded) :
    FactAt module function loaded := by
  unfold loadPairField at h
  split at h
  case isTrue => exact nomatch h
  case isFalse =>
    obtain ⟨declared, hdeclared, h⟩ := Option.bind_eq_some_iff.mp h
    obtain ⟨found, hfound, h⟩ := Option.bind_eq_some_iff.mp h
    have hfacts : ∀ v, found = some v → FactAt module function v := by
      apply foldlM_option _ (fact_declaredField hreceiver hdeclared) hfound
      intro before site after hbefore hstep v hv
      obtain ⟨fields, hfields, hstep⟩ := Option.bind_eq_some_iff.mp hstep
      cases hstep
      cases hv
      exact fact_joinLoaded hbefore (.get (fact_getD hstate hfields) left)
    exact hfacts loaded (Option.filter_eq_some_iff.mp h).1

/-- An element fact of one kind of fact stays one when elements are joined. -/
theorem fact_joinRefArrayElementValues {sites size depth : ℕ} {lhs rhs : AbstractValue}
    (hl : Fact sites size depth lhs) (hr : Fact sites size depth rhs) :
    Fact sites size depth (joinRefArrayElementValues lhs rhs) := by
  have hopaqueObject : Fact sites size depth opaqueObjectValue :=
    .plain (plain_of_shape shape_opaqueObjectValue)
  unfold joinRefArrayElementValues
  dsimp only
  split
  · exact hl.join hr
  · split
    · exact hl.join hr
    · split
      · exact hopaqueObject
      · exact hl.join hr

theorem fact_loadRefArrayElement (hstate : FactsAt module function state)
    (hreceiver : FactAt module function receiver)
    (h : loadRefArrayElement state receiver = some loaded) : FactAt module function loaded := by
  unfold loadRefArrayElement at h
  obtain ⟨found, hfound, h⟩ := Option.bind_eq_some_iff.mp h
  have hdeclared : ∀ v, receiver.signatureArrayElement = some v → FactAt module function v := by
    intro v hv
    cases hreceiver with
    | plain hplain => exact .plain (hplain.shape.element v hv).plain
    | maybe => exact nomatch hv
  have hfacts : ∀ v, found = some v → FactAt module function v := by
    apply foldlM_option _ hdeclared hfound
    intro before site after hbefore hstep v hv
    obtain ⟨element, helement, hstep⟩ := Option.bind_eq_some_iff.mp hstep
    have hfact : FactAt module function element := .plain (elementFact_getD hstate helement).plain
    cases hstep
    cases hv
    split
    case h_1 => exact hfact
    case h_2 loaded => exact fact_joinRefArrayElementValues (hbefore loaded rfl) hfact
  exact hfacts loaded (Option.filter_eq_some_iff.mp h).1

/-- Replacing the field fact of a site by another. -/
theorem StateFacts.setFields {sites size depth site : ℕ} {fields : Option PairFields}
    (h : StateFacts sites size depth state) (hfields : ∀ f, fields = some f →
      Fact sites size depth f.left ∧ Fact sites size depth f.right) :
    StateFacts sites size depth
      { state with fieldsBySite := state.fieldsBySite.set site fields } :=
  { h with fields := fun f hf => (some_mem_set hf).elim (h.fields f) (hfields f) }

theorem StateFacts.setElement {sites size depth site : ℕ} {element : AbstractValue}
    (h : StateFacts sites size depth state) (helement : ElementFact sites size depth element) :
    StateFacts sites size depth { state with
      refArrayElementsBySite := state.refArrayElementsBySite.set site (some element) } :=
  { h with
    elements := fun e he => (some_mem_set he).elim (h.elements e) fun heq =>
      Option.some.inj heq ▸ helement }

theorem Fact.set {sites size depth : ℕ} {fields : PairFields}
    (h : Fact sites size depth fields.left ∧ Fact sites size depth fields.right)
    (hvalue : Fact sites size depth value) (left : Bool) :
    Fact sites size depth (fields.set left value).left ∧
      Fact sites size depth (fields.set left value).right := by
  cases left
  · exact ⟨h.1, hvalue⟩
  · exact ⟨hvalue, h.2⟩

theorem fact_joinValueInto {sites size depth : ℕ} {lhs rhs : AbstractValue}
    (hl : Fact sites size depth lhs) (hr : Fact sites size depth rhs) :
    Fact sites size depth (joinValueInto lhs rhs).1 := by
  unfold joinValueInto
  dsimp only
  split
  · exact hl
  · exact hl.join hr

theorem facts_storePairField {conforms : Conformance} {left : Bool}
    (hstate : FactsAt module function state) (hvalue : FactAt module function value)
    (h : storePairField conforms module state receiver left value = some state') :
    FactsAt module function state' := by
  unfold storePairField at h
  split at h
  case isTrue => exact nomatch h
  case isFalse =>
    split at h
    case isTrue => exact nomatch h
    case isFalse =>
      obtain ⟨expected, -, h⟩ := Option.bind_eq_some_iff.mp h
      simp only at h
      split at h
      case isTrue => exact nomatch h
      case isFalse =>
        obtain ⟨updated, hupdated, h⟩ := Option.bind_eq_some_iff.mp h
        split at h
        case isFalse => exact nomatch h
        case isTrue =>
          cases h
          apply foldlM_option _ hstate hupdated
          intro before site after hbefore hstep
          obtain ⟨fields, hfields, hstep⟩ := Option.bind_eq_some_iff.mp hstep
          cases hstep
          have hfacts := fact_getD hbefore hfields
          apply hbefore.setFields
          intro f hf
          cases hf
          exact Fact.set hfacts (fact_joinValueInto (.get hfacts left) hvalue) left

theorem facts_storeRefArrayElement {conforms : Conformance}
    (hstate : FactsAt module function state) (hvalue : ElementFactAt module function value)
    (h : storeRefArrayElement conforms state receiver value = some state') :
    FactsAt module function state' := by
  unfold storeRefArrayElement at h
  simp only at h
  split at h
  case isTrue => exact nomatch h
  case isFalse =>
    obtain ⟨updated, hupdated, h⟩ := Option.bind_eq_some_iff.mp h
    split at h
    case isFalse => exact nomatch h
    case isTrue =>
      cases h
      apply foldlM_option _ hstate hupdated
      intro before site after hbefore hstep
      obtain ⟨element, helement, hstep⟩ := Option.bind_eq_some_iff.mp hstep
      simp only at hstep
      split at hstep
      case isTrue => exact nomatch hstep
      case isFalse =>
        cases hstep
        exact hbefore.setElement ((elementFact_getD hbefore helement).join hvalue)

end Fields

end LanguageRuntime.Bytecode
