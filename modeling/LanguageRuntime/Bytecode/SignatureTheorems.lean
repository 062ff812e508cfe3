import LanguageRuntime.Bytecode.StateRankTheorems

/-!
# The facts of static types

The static types of a module are of bounded size, so the facts they give are bounded too.
-/

namespace LanguageRuntime.Bytecode

open LanguageRuntime.Library

/-! ## Static types -/

section Signatures

variable {sites size depth : ℕ} {signature : SignatureValue}

theorem tidy_valueWithKind (kind : AbstractKind) : Tidy (valueWithKind kind) := by
  constructor <;> simp [valueWithKind]

theorem shape_valueWithKind {P Q : AbstractValue → Prop} {kind : AbstractKind}
    (h : kind ≠ .maybeReference) : Shape sites size P Q (valueWithKind kind) where
  plain := h
  poison hpoison := by rw [show kind = .poison from hpoison]; rfl
  objectSites := by simp [valueWithKind]
  refArraySites := by simp [valueWithKind]
  fields := nofun
  element := nofun
  target := nofun
  alive := nofun
  function := nofun
  map := nofun
  tidy := tidy_valueWithKind kind
  bare _ hinner := absurd hinner (not_inner rfl rfl rfl)

theorem shape_valueFromKind {P Q : AbstractValue → Prop} (kind : ValueKind) :
    Shape sites size P Q (valueFromKind kind) := by
  unfold valueFromKind
  split
  · exact shape_opaqueObjectValue
  · apply shape_valueWithKind
    cases kind <;> exact nofun

theorem kind_valueFromKind (kind : ValueKind) : (valueFromKind kind).kind ≠ .poison := by
  cases kind <;> exact nofun

theorem Shape.nonnil {P Q : AbstractValue → Prop} {value : AbstractValue}
    (h : Shape sites size P Q value) (hne : value.kind ≠ .poison) :
    Shape sites size P Q { value with includesNil := false } :=
  h.withFlags hne (fun _ _ _ => rfl) value.sourceLocal value.nilTestLocal

theorem Shape.nonnilElement {P Q : AbstractValue → Prop} {value : AbstractValue}
    (h : Shape sites size P Q value) (hne : value.kind ≠ .poison) :
    Shape sites size P Q (nonnilElement value) := by
  unfold Bytecode.nonnilElement
  split
  · exact h.nonnil hne
  · exact h

/-- `valueFromSignature`, one branch for each shape. -/
theorem valueFromSignature_eq (signature : SignatureValue) : valueFromSignature signature =
    if signature.isRecordLayoutReference then recordValue (signature.recordLayout.getD 0) true
    else if signature.isVariantLayoutReference then
      variantValue (signature.variantLayout.getD 0) true
    else if signature.hasWeakTarget then
      match signature.weakTarget with
      | some target => weakValue (valueFromSignature target)
      | none => poisonValue
    else if signature.hasFunctionSignature then
      { kind := .function, signatureFunction := some signature }
    else if signature.hasMapEntries then mapValue signature
    else if signature.hasEphemeronEntries then ephemeronValue signature
    else if signature.isNamedTypeReference then
      namedSignatureObjectValue (signature.namedType.getD 0)
    else if signature.hasPairFields then
      match signature.left, signature.right with
      | some left, some right =>
        { kind := .object
          signatureFields := some ⟨valueFromSignature left, valueFromSignature right⟩ }
      | _, _ => poisonValue
    else if signature.hasArrayElement then
      match signature.element with
      | some element =>
        if signatureValueIsReference element then
          { kind := .refArray
            signatureArrayElement := some (nonnilElement (valueFromSignature element)) }
        else arrayValue
      | none => poisonValue
    else valueFromKind signature.kind := by
  obtain ⟨kind, left, right, element, key, value, weakTarget, parameters, ret, named, record,
    variant⟩ := signature
  cases left <;> cases right <;> cases element <;> cases weakTarget <;> rfl

/-- What a pointer of a signature leads to is smaller. -/
theorem sizeOf_pointer {inner : SignatureValue}
    (h : signature.left = some inner ∨ signature.right = some inner ∨
      signature.element = some inner ∨ signature.key = some inner ∨
      signature.value = some inner ∨ signature.weakTarget = some inner ∨
      signature.functionReturn = some inner) : sizeOf inner < sizeOf signature := by
  cases signature
  simp only at h
  rcases h with rfl | rfl | rfl | rfl | rfl | rfl | rfl <;>
    rw [SignatureValue.mk.sizeOf_spec, Option.some.sizeOf_spec] <;> omega

theorem kind_valueFromSignature (signature : SignatureValue) :
    (valueFromSignature signature).kind ≠ .poison := by
  rw [valueFromSignature_eq]
  split
  · exact nofun
  split
  · exact nofun
  split
  case isTrue hweak =>
    split
    case h_1 => exact nofun
    case h_2 hnone => simp [SignatureValue.hasWeakTarget, hnone] at hweak
  split
  · exact nofun
  split
  · exact nofun
  split
  · exact nofun
  split
  · exact nofun
  split
  case isTrue hpair =>
    split
    case h_1 => exact nofun
    case h_2 hnone =>
      rw [SignatureValue.hasPairFields] at hpair
      simp only [Bool.and_eq_true, Option.isSome_iff_exists] at hpair
      obtain ⟨⟨⟨⟨⟨⟨⟨⟨-, ⟨left, hleft⟩⟩, ⟨right, hright⟩⟩, -⟩, -⟩, -⟩, -⟩, -⟩, -⟩ := hpair
      exact absurd hright (hnone left right hleft)
  split
  case isTrue harray =>
    split
    case h_1 => split <;> exact nofun
    case h_2 hnone => simp [SignatureValue.hasArrayElement, hnone] at harray
  exact kind_valueFromKind _

theorem bare_valueFromSignature (signature : SignatureValue) :
    Bare (valueFromSignature signature) := by
  have hkind : Bare (valueFromKind signature.kind) := by
    cases signature.kind <;> exact ⟨rfl, rfl⟩
  rw [valueFromSignature_eq]
  repeat' split
  all_goals first | exact hkind | exact ⟨rfl, rfl⟩

theorem bare_nonnilElement {value : AbstractValue} (h : Bare value) :
    Bare (nonnilElement value) := by
  unfold Bytecode.nonnilElement
  split
  · exact h
  · exact h

/-- A value without pointers has a shape when its sites and types are bounded. -/
theorem shape_flat {P Q : AbstractValue → Prop} {value : AbstractValue}
    (hplain : value.kind ≠ .maybeReference) (hpoison : value.kind ≠ .poison)
    (hobjects : ∀ site ∈ value.objectSites, site < sites)
    (harrays : ∀ site ∈ value.refArraySites, site < sites) (hfields : value.signatureFields = none)
    (helement : value.signatureArrayElement = none) (htarget : value.referenceTarget = none)
    (hfunction : ∀ s, value.signatureFunction = some s → sizeOf s ≤ size)
    (hmap : ∀ s, value.signatureMap = some s → sizeOf s ≤ size) (htidy : Tidy value) :
    Shape sites size P Q value where
  plain := hplain
  poison h := absurd h hpoison
  objectSites := hobjects
  refArraySites := harrays
  fields := by simp [hfields]
  element := by simp [helement]
  target := by simp [htarget]
  alive := by simp [htarget]
  function := hfunction
  map := hmap
  tidy := htidy
  bare _ hinner := absurd hinner (not_inner hfields helement htarget)

theorem not_mem_sites {s : Finset ℕ} (h : s = ∅) : ∀ site ∈ s, site < sites := by
  simp [h]

theorem shape_weakValue {P Q : AbstractValue → Prop} {value : AbstractValue}
    (htarget : Q (withoutProvenance { value with includesNil := false }))
    (hne : value.kind ≠ .poison) : Shape sites size P Q (weakValue value) where
  plain := nofun
  poison := nofun
  objectSites := not_mem_sites rfl
  refArraySites := not_mem_sites rfl
  fields := nofun
  element := nofun
  target t ht := Option.some.inj ht ▸ htarget
  alive t ht := Option.some.inj ht ▸ hne
  function := nofun
  map := nofun
  tidy := of_decide_eq_true rfl
  bare inner hinner := by
    rcases hinner with ⟨_, hnone, -⟩ | hnone | hinner
    · exact nomatch hnone
    · exact nomatch hnone
    · cases hinner
      exact ⟨rfl, rfl⟩

/-- The shape of the value of a static type, from what is known of the smaller types. -/
theorem shape_valueFromSignature {P Q : AbstractValue → Prop} (hsize : sizeOf signature ≤ size)
    (hfields : ∀ inner, sizeOf inner < sizeOf signature → P (valueFromSignature inner))
    (helement : ∀ inner, sizeOf inner < sizeOf signature →
      P (nonnilElement (valueFromSignature inner)))
    (htarget : ∀ inner, sizeOf inner < sizeOf signature →
      Q (withoutProvenance { valueFromSignature inner with includesNil := false })) :
    Shape sites size P Q (valueFromSignature signature) := by
  have hnone {s : Finset ℕ} (h : s = ∅) : ∀ site ∈ s, site < sites := not_mem_sites h
  rw [valueFromSignature_eq]
  split
  · exact shape_flat nofun nofun (hnone rfl) (hnone rfl) rfl rfl rfl nofun nofun (of_decide_eq_true rfl)
  split
  · exact shape_flat nofun nofun (hnone rfl) (hnone rfl) rfl rfl rfl nofun nofun (of_decide_eq_true rfl)
  split
  · split
    case h_1 target htargetEq =>
      have hsmaller : sizeOf target < sizeOf signature := sizeOf_pointer (by simp [htargetEq])
      exact shape_weakValue (htarget target hsmaller) (kind_valueFromSignature target)
    case h_2 => exact shape_poisonValue
  split
  · exact shape_flat nofun nofun (hnone rfl) (hnone rfl) rfl rfl rfl
      (fun s hs => Option.some.inj hs ▸ hsize) nofun (of_decide_eq_true rfl)
  split
  · exact shape_flat nofun nofun (hnone rfl) (hnone rfl) rfl rfl rfl nofun
      (fun s hs => Option.some.inj hs ▸ hsize) (of_decide_eq_true rfl)
  split
  · exact shape_flat nofun nofun (hnone rfl) (hnone rfl) rfl rfl rfl nofun
      (fun s hs => Option.some.inj hs ▸ hsize) (of_decide_eq_true rfl)
  split
  · exact shape_flat nofun nofun (hnone rfl) (hnone rfl) rfl rfl rfl nofun nofun (of_decide_eq_true rfl)
  split
  · split
    case h_1 left right hleft hright =>
      have hleftSize : sizeOf left < sizeOf signature := sizeOf_pointer (by simp [hleft])
      have hrightSize : sizeOf right < sizeOf signature := sizeOf_pointer (by simp [hright])
      have hbare : Shape sites size P Q { kind := .object } :=
        shape_flat nofun nofun (hnone rfl) (hnone rfl) rfl rfl rfl nofun nofun (of_decide_eq_true rfl)
      exact { hbare with
        poison := nofun
        fields := fun f hf => Option.some.inj hf ▸ ⟨hfields left hleftSize, hfields right hrightSize⟩
        tidy := of_decide_eq_true rfl
        bare := fun inner hinner => by
          rcases hinner with ⟨f, hf, hinner⟩ | hnone | hnone
          · cases hf
            rcases hinner with rfl | rfl
            · exact bare_valueFromSignature left
            · exact bare_valueFromSignature right
          · exact nomatch hnone
          · exact nomatch hnone }
    case h_2 => exact shape_poisonValue
  split
  · split
    case h_1 element helementEq =>
      have hsmaller : sizeOf element < sizeOf signature := sizeOf_pointer (by simp [helementEq])
      have hbare : Shape sites size P Q { kind := .refArray } :=
        shape_flat nofun nofun (hnone rfl) (hnone rfl) rfl rfl rfl nofun nofun (of_decide_eq_true rfl)
      split
      · exact { hbare with
          poison := nofun
          element := fun e he => Option.some.inj he ▸ helement element hsmaller
          tidy := of_decide_eq_true rfl
          bare := fun inner hinner => by
            rcases hinner with ⟨_, hnone, -⟩ | hinner | hnone
            · exact nomatch hnone
            · cases hinner
              exact bare_nonnilElement (bare_valueFromSignature element)
            · exact nomatch hnone }
      · exact shape_valueWithKind nofun
    case h_2 => exact shape_poisonValue
  exact shape_valueFromKind _

/-- The value of a static type nests no deeper than the type is large. -/
theorem nested_valueFromSignature (hsize : sizeOf signature ≤ size) :
    Nested sites size (sizeOf signature) (valueFromSignature signature) := by
  -- by induction on the size of the type
  induction hn : sizeOf signature using Nat.strong_induction_on generalizing signature with
  | h n ih =>
    have hinner (inner : SignatureValue) (hsmaller : sizeOf inner < sizeOf signature) :
        Nested sites size (n - 1) (valueFromSignature inner) :=
      (ih (sizeOf inner) (by omega) (by omega) rfl).mono (by omega)
    have hshape {value : AbstractValue} {m : ℕ} (h : Nested sites size m value) :
        ∃ k, m = k + 1 ∧ Shape sites size (Nested sites size k) (Nested sites size k) value := by
      cases m with
      | zero => exact h.elim
      | succ k => exact ⟨k, rfl, h⟩
    have hpos : 0 < n := by
      subst hn
      cases signature
      rw [SignatureValue.mk.sizeOf_spec]
      omega
    obtain ⟨m, rfl⟩ : ∃ m, n = m + 1 := ⟨n - 1, by omega⟩
    show Shape sites size (Nested sites size m) (Nested sites size m) _
    rw [Nat.add_sub_cancel] at hinner
    apply shape_valueFromSignature hsize
    · exact hinner
    · intro inner hsmaller
      obtain ⟨k, rfl, h⟩ := hshape (hinner inner hsmaller)
      exact h.nonnilElement (kind_valueFromSignature inner)
    · intro inner hsmaller
      obtain ⟨k, rfl, h⟩ := hshape (hinner inner hsmaller)
      exact shape_withoutProvenance (h.nonnil (kind_valueFromSignature inner))

theorem fact_valueFromSignature (hsize : sizeOf signature ≤ size) :
    Fact sites size size (valueFromSignature signature) :=
  .plain ((nested_valueFromSignature hsize).mono hsize).plain

end Signatures

/-! ## Bounds -/

/-- Every static type a transfer works with is at most this large. -/
noncomputable def typeBound (module : Module) (function : Function) : ℕ :=
  sizeOf module + sizeOf function.signature + 32

section Bounds

variable {module : Module} {function : Function}

theorem sizeOf_getElem? {α : Type} [SizeOf α] {table : List α} {index : ℕ} {entry : α}
    (h : table[index]? = some entry) : sizeOf entry < sizeOf table :=
  List.sizeOf_lt_of_mem (List.mem_of_getElem? h)

theorem sizeOf_signatureValue (kind : ValueKind) : sizeOf (signatureValue kind) = 13 := by
  cases kind <;> rfl

theorem sizeOf_returnSignature (signature : FunctionSignature) :
    sizeOf (returnSignature signature) ≤ sizeOf signature + 13 := by
  unfold returnSignature
  split
  case h_1 detail hdetail =>
    cases signature
    simp only at hdetail
    rw [hdetail, FunctionSignature.mk.sizeOf_spec, Option.some.sizeOf_spec]
    omega
  case h_2 =>
    rw [sizeOf_signatureValue]
    omega

theorem sizeOf_parameterSignatures {signature : FunctionSignature} {type : SignatureValue}
    (h : type ∈ parameterSignatures signature) : sizeOf type ≤ sizeOf signature + 13 := by
  obtain ⟨index, -, rfl⟩ := List.mem_map.mp h
  unfold parameterSignature
  split
  · rw [sizeOf_signatureValue]
    omega
  · rw [List.getD_eq_getElem?_getD]
    cases htype : signature.parameterTypes[index]? with
    | none =>
      rw [Option.getD_none, sizeOf_signatureValue]
      omega
    | some type =>
      have hsize := sizeOf_getElem? htype
      cases signature
      simp only at hsize
      rw [Option.getD_some, FunctionSignature.mk.sizeOf_spec]
      omega

theorem sizeOf_namedType {type : NamedTypeSignature} {index : ℕ}
    (h : module.namedTypes[index]? = some type) : sizeOf type.body ≤ typeBound module function := by
  have hsize := sizeOf_getElem? h
  cases module
  cases type
  simp only [typeBound, Module.mk.sizeOf_spec, NamedTypeSignature.mk.sizeOf_spec] at hsize ⊢
  omega

theorem sizeOf_recordField {layout : RecordLayout} {type : SignatureValue} {index field : ℕ}
    (h : module.recordLayouts[index]? = some layout) (hfield : layout.fieldTypes[field]? = some type) :
    sizeOf type ≤ typeBound module function := by
  have hsize := sizeOf_getElem? h
  have hsize' := sizeOf_getElem? hfield
  cases module
  cases layout
  simp only [typeBound, Module.mk.sizeOf_spec, RecordLayout.mk.sizeOf_spec] at hsize hsize' ⊢
  omega

theorem sizeOf_variantField {layout : VariantLayout} {caseLayout : VariantCaseLayout}
    {type : SignatureValue} {index caseIndex field : ℕ}
    (h : module.variantLayouts[index]? = some layout)
    (hcase : layout.cases[caseIndex]? = some caseLayout)
    (hfield : caseLayout.fieldTypes[field]? = some type) :
    sizeOf type ≤ typeBound module function := by
  have hsize := sizeOf_getElem? h
  have hsize' := sizeOf_getElem? hcase
  have hsize'' := sizeOf_getElem? hfield
  cases module
  cases layout
  cases caseLayout
  simp only [typeBound, Module.mk.sizeOf_spec, VariantLayout.mk.sizeOf_spec,
    VariantCaseLayout.mk.sizeOf_spec] at hsize hsize' hsize'' ⊢
  omega

theorem sizeOf_mapSignature {layout : MapLayout} {index : ℕ}
    (h : module.mapLayouts[index]? = some layout) :
    sizeOf (mapSignature layout.keyType layout.valueType) ≤ typeBound module function := by
  have hsize := sizeOf_getElem? h
  cases module
  cases layout
  simp only [typeBound, mapSignature, Module.mk.sizeOf_spec, MapLayout.mk.sizeOf_spec,
    SignatureValue.mk.sizeOf_spec, Option.some.sizeOf_spec, Option.none.sizeOf_spec,
    List.nil.sizeOf_spec, ValueKind.map.sizeOf_spec] at hsize ⊢
  omega

theorem sizeOf_ephemeronSignature {layout : EphemeronLayout} {index : ℕ}
    (h : module.ephemeronLayouts[index]? = some layout) :
    sizeOf (ephemeronSignature layout.keyType layout.valueType) ≤ typeBound module function := by
  have hsize := sizeOf_getElem? h
  cases module
  cases layout
  simp only [typeBound, ephemeronSignature, Module.mk.sizeOf_spec, EphemeronLayout.mk.sizeOf_spec,
    SignatureValue.mk.sizeOf_spec, Option.some.sizeOf_spec, Option.none.sizeOf_spec,
    List.nil.sizeOf_spec, ValueKind.ephemeron.sizeOf_spec] at hsize ⊢
  omega

theorem sizeOf_closureLayout {layout : ClosureLayout} {index : ℕ}
    (h : module.closureLayouts[index]? = some layout) :
    sizeOf layout.functionType ≤ typeBound module function ∧
      ∀ {capture : ℕ} {type : SignatureValue}, layout.captureTypes[capture]? = some type →
        sizeOf type ≤ typeBound module function := by
  have hsize := sizeOf_getElem? h
  have hcapture {capture : ℕ} {type : SignatureValue}
      (htype : layout.captureTypes[capture]? = some type) :
      sizeOf type < sizeOf layout.captureTypes := sizeOf_getElem? htype
  cases module
  cases layout
  simp only [typeBound, Module.mk.sizeOf_spec, ClosureLayout.mk.sizeOf_spec] at hsize hcapture ⊢
  refine ⟨by omega, fun htype => ?_⟩
  have hsmaller := hcapture htype
  omega

theorem sizeOf_callee {callee : Function} {index : ℕ} (h : module.functions[index]? = some callee) :
    sizeOf (returnSignature callee.signature) ≤ typeBound module function := by
  have hsize := sizeOf_getElem? h
  have hreturn := sizeOf_returnSignature callee.signature
  cases module
  cases callee
  simp only [typeBound, Module.mk.sizeOf_spec, Function.mk.sizeOf_spec] at hsize hreturn ⊢
  omega

end Bounds

end LanguageRuntime.Bytecode
