import LanguageRuntime.Bytecode.JoinLawTheorems

/-!
# When a join is an upper bound

The join of two facts describes what a covered one describes, kind by kind and then by induction
on how deep the facts nest.
-/

namespace LanguageRuntime.Bytecode

section Shapes

variable {V : Type} {W : World V} {fact lhs rhs : AbstractValue} {v : V}

/-! ## The meaning of a fact, kind by kind -/

theorem hasShape_object (h : fact.kind = .object) : HasShape W fact v ↔
    (fact.includesNil = true ∧ W.isNil v) ∨ (∃ site ∈ fact.objectSites, W.objectSite site v) ∨
      (fact.includesOpaqueObject = true ∧ W.isReference v) ∨
      (∃ type, fact.signatureNamedType = some type ∧ W.instanceOf type v) ∨
      FieldsDescribe W fact.signatureFields v := by
  cases fact
  simp only at h
  subst h
  exact Iff.rfl

theorem hasShape_refArray (h : fact.kind = .refArray) : HasShape W fact v ↔
    (∃ site ∈ fact.refArraySites, W.arraySite site v) ∨
      ElementDescribes W fact.signatureArrayElement v := by
  cases fact
  simp only at h
  subst h
  exact Iff.rfl

theorem hasShape_function (h : fact.kind = .function) : HasShape W fact v ↔
    W.isKind .function v ∧ ∀ type, fact.signatureFunction = some type → W.hasType type v := by
  cases fact
  simp only at h
  subst h
  exact Iff.rfl

theorem hasShape_entries {kind : AbstractKind} (hkind : kind = .map ∨ kind = .ephemeron)
    (h : fact.kind = kind) : HasShape W fact v ↔
    W.isKind kind v ∧ ∀ type, fact.signatureMap = some type → W.hasType type v := by
  cases fact
  simp only at h
  subst h
  rcases hkind with rfl | rfl <;> exact Iff.rfl

theorem hasShape_record (h : fact.kind = .record) : HasShape W fact v ↔
    (fact.includesNil = true ∧ W.isNil v) ∨
      (W.isKind .record v ∧
        ∀ layout, fact.signatureRecordLayout = some layout → W.hasLayout layout v) := by
  cases fact
  simp only at h
  subst h
  exact Iff.rfl

theorem hasShape_variant (h : fact.kind = .variant) : HasShape W fact v ↔
    (fact.includesNil = true ∧ W.isNil v) ∨
      (W.isKind .variant v ∧
        ∀ layout, fact.signatureVariantLayout = some layout → W.hasLayout layout v) := by
  cases fact
  simp only at h
  subst h
  exact Iff.rfl

theorem hasShape_weak (h : fact.kind = .weak) : HasShape W fact v ↔
    W.isKind .weak v ∧ TargetDescribes W fact.referenceTarget v := by
  cases fact
  simp only at h
  subst h
  exact Iff.rfl

theorem hasShape_maybeOf (target : AbstractValue) (source test : Option ℕ) :
    HasShape W (maybeOf target source test) v ↔ W.isNil v ∨ Describes W target v := by
  exact Iff.rfl

theorem hasShape_poisonValue : HasShape W poisonValue v := by
  exact trivial

/-- The shape of a fact of a kind without components. -/
theorem hasShape_simple {kind : AbstractKind} (hkind : kind ∈
    [AbstractKind.int64, .bool, .array, .str, .builder, .nil]) (h : fact.kind = kind) :
    HasShape W fact v ↔ W.isKind kind v := by
  cases fact
  simp only at h
  subst h
  simp only [List.mem_cons, List.not_mem_nil, or_false] at hkind
  rcases hkind with rfl | rfl | rfl | rfl | rfl | rfl <;> exact Iff.rfl

theorem fieldsDescribe_some (fields : PairFields) : FieldsDescribe W (some fields) v ↔
    ∃ a b, W.hasFields v a b ∧ Describes W fields.left a ∧ Describes W fields.right b := by
  cases fields
  rw [FieldsDescribe]
  rfl

theorem elementDescribes_some (element : AbstractValue) : ElementDescribes W (some element) v ↔
    W.isKind .refArray v ∧ ∀ a, W.hasElement v a → Describes W element a := by
  rw [ElementDescribes]
  rfl

theorem targetDescribes_some (target : AbstractValue) : TargetDescribes W (some target) v ↔
    ∀ a, W.hasTarget v a → Describes W target a := by
  rw [TargetDescribes]
  rfl

/-- The shape of a fact is that of a fact with other origins. -/
theorem hasShape_withOrigins (source test : Option ℕ) :
    HasShape W { fact with sourceLocal := source, nilTestLocal := test } v ↔ HasShape W fact v := by
  cases fact
  rfl

theorem hasOrigins_of_bare (h : Bare fact) : HasOrigins W fact v := by
  constructor
  · intro source hsource
    rw [h.1] at hsource
    exact nomatch hsource
  · intro tested htested
    rw [h.2] at htested
    exact nomatch htested

/-- The origins of a join are origins of its sides. -/
theorem hasOrigins_join {joined : AbstractValue} (h : HasOrigins W fact v)
    (hsource : ∀ source, joined.sourceLocal = some source → fact.sourceLocal = some source)
    (htest : ∀ tested, joined.nilTestLocal = some tested → fact.nilTestLocal = some tested) :
    HasOrigins W joined v :=
  ⟨fun source hs => h.1 source (hsource source hs), fun tested ht => h.2 tested (htest tested ht)⟩

theorem joinOrigin_left {lhs rhs : Option ℕ} {origin : ℕ} (h : joinOrigin lhs rhs = some origin) :
    lhs = some origin := by
  unfold joinOrigin at h
  split at h
  · exact h
  · exact nomatch h

end Shapes

/-! ## Upper bounds -/

section Bounds

variable {V : Type} {W : World V} {sites size depth : ℕ} {fact lhs rhs : AbstractValue} {v : V}

theorem isVoid_object (h : fact.kind = .object) : isVoid fact =
    (!fact.includesNil && decide (fact.objectSites = ∅) && !fact.includesOpaqueObject &&
      fact.signatureNamedType.isNone && fieldsVoid fact.signatureFields) := by
  cases fact
  simp only at h
  subst h
  rfl

theorem isVoid_refArray (h : fact.kind = .refArray) : isVoid fact =
    (decide (fact.refArraySites = ∅) && fact.signatureArrayElement.isNone) := by
  cases fact
  simp only at h
  subst h
  rfl

theorem isVoid_other (hobject : fact.kind ≠ .object) (harray : fact.kind ≠ .refArray) :
    isVoid fact = false := by
  cases fact with
  | mk kind =>
    dsimp only at hobject harray
    cases kind <;> first | contradiction | rfl

theorem fieldsVoid_some (fields : PairFields) :
    fieldsVoid (some fields) = (isVoid fields.left || isVoid fields.right) := by
  cases fields
  rw [fieldsVoid]

/-- A void fact describes nothing. -/
theorem not_hasShape_of_isVoid (n : ℕ) : ∀ {fact : AbstractValue} {v : V}, fact.depth ≤ n →
    isVoid fact = true → ¬HasShape W fact v := by
  -- by induction on how deep the fact nests
  induction n with
  | zero =>
    intro fact v hdepth
    have heq := fact.depth_eq
    omega
  | succ n ih =>
    intro fact v hdepth hvoid hshape
    by_cases hobject : fact.kind = .object
    · rw [isVoid_object hobject] at hvoid
      simp only [Bool.and_eq_true, Bool.not_eq_true', decide_eq_true_eq,
        Option.isNone_iff_eq_none] at hvoid
      obtain ⟨⟨⟨⟨hnil, hsites⟩, hopaqueObject⟩, hnamed⟩, hfields⟩ := hvoid
      rw [hasShape_object hobject, hnil, hsites, hopaqueObject, hnamed] at hshape
      rcases hshape with h | h | h | h | h
      · exact nomatch h.1
      · obtain ⟨site, hsite, -⟩ := h
        exact absurd hsite (Finset.notMem_empty site)
      · exact nomatch h.1
      · obtain ⟨type, htype, -⟩ := h
        exact nomatch htype
      · cases heq : fact.signatureFields with
        | none =>
          rw [heq, FieldsDescribe] at h
          exact h
        | some fields =>
          rw [heq, fieldsDescribe_some] at h
          rw [heq, fieldsVoid_some, Bool.or_eq_true] at hfields
          obtain ⟨a, b, -, ha, hb⟩ := h
          have hsize := AbstractValue.depth_signatureFields heq
          rcases hfields with hleft | hright
          · exact ih (by omega) hleft ha.1
          · exact ih (by omega) hright hb.1
    by_cases harray : fact.kind = .refArray
    · rw [isVoid_refArray harray] at hvoid
      simp only [Bool.and_eq_true, decide_eq_true_eq, Option.isNone_iff_eq_none] at hvoid
      rw [hasShape_refArray harray, hvoid.1, hvoid.2, ElementDescribes, or_false] at hshape
      obtain ⟨site, hsite, -⟩ := hshape
      exact absurd hsite (Finset.notMem_empty site)
    · rw [isVoid_other hobject harray] at hvoid
      exact nomatch hvoid

theorem covered_of_kind_ne (h : lhs.kind ≠ rhs.kind) : covered lhs rhs = true := by
  cases lhs with
  | mk kind => cases kind <;> exact if_pos h

theorem covered_object (hl : lhs.kind = .object) (hr : rhs.kind = .object) : covered lhs rhs =
    (lhs.includesOpaqueObject || rhs.includesOpaqueObject ||
      ((lhs.signatureNamedType.isNone || rhs.signatureNamedType.isNone ||
          lhs.signatureNamedType == rhs.signatureNamedType) &&
        fieldsCovered lhs.signatureFields rhs.signatureFields)) := by
  cases lhs
  simp only at hl
  subst hl
  exact if_neg (not_not.mpr hr.symm)

theorem covered_refArray (hl : lhs.kind = .refArray) (hr : rhs.kind = .refArray) :
    covered lhs rhs = pointerCovered lhs.signatureArrayElement rhs.signatureArrayElement := by
  cases lhs
  simp only at hl
  subst hl
  exact if_neg (not_not.mpr hr.symm)

theorem covered_weak (hl : lhs.kind = .weak) (hr : rhs.kind = .weak) :
    covered lhs rhs = pointerCovered lhs.referenceTarget rhs.referenceTarget := by
  cases lhs
  simp only at hl
  subst hl
  exact if_neg (not_not.mpr hr.symm)

theorem covered_other (hobject : lhs.kind ≠ .object) (harray : lhs.kind ≠ .refArray)
    (hweak : lhs.kind ≠ .weak) : covered lhs rhs = true := by
  cases lhs with
  | mk kind =>
    dsimp only at hobject harray hweak
    cases kind <;> first | contradiction | exact ite_self true

theorem fieldsCovered_some (lhs rhs : PairFields) : fieldsCovered (some lhs) (some rhs) =
    (isVoid lhs.left || isVoid lhs.right ||
      (covered lhs.left rhs.left && covered lhs.right rhs.right)) := by
  cases lhs
  rw [fieldsCovered]

theorem pointerCovered_some (lhs rhs : AbstractValue) :
    pointerCovered (some lhs) (some rhs) = covered lhs rhs := by
  rw [pointerCovered]

/-- What an object fact describes is nil, if the fact allows it, or a reference. -/
theorem reference_of_hasShape (h : fact.kind = .object) (hshape : HasShape W fact v) :
    (fact.includesNil = true ∧ W.isNil v) ∨ W.isReference v := by
  rw [hasShape_object h] at hshape
  rcases hshape with hnil | ⟨site, -, hsite⟩ | ⟨-, hreference⟩ | ⟨type, -, htype⟩ | hfields
  · exact .inl hnil
  · exact .inr (W.reference_of_site site v hsite)
  · exact .inr hreference
  · exact .inr (W.reference_of_instance type v htype)
  · cases heq : fact.signatureFields with
    | none =>
      rw [heq, FieldsDescribe] at hfields
      exact hfields.elim
    | some fields =>
      rw [heq, fieldsDescribe_some] at hfields
      obtain ⟨a, b, hab, -⟩ := hfields
      exact .inr (W.reference_of_fields v a b hab)

theorem joinNamedType_of_covered {named named' : Option ℕ} {type : ℕ}
    (h : (named.isNone || named'.isNone || named == named') = true) (htype : named = some type) :
    joinNamedType named named' = some type := by
  subst htype
  cases named' with
  | none => rfl
  | some type' =>
    have heq : type = type' := by simpa using h
    rw [heq, joinNamedType_self]

theorem fieldsDescribe_join {fields fields' : Option PairFields}
    (hcovered : fieldsCovered fields fields' = true)
    (hleft : ∀ f g a, fields = some f → fields' = some g → covered f.left g.left = true →
      Describes W f.left a → Describes W (joinValues f.left g.left) a)
    (hright : ∀ f g a, fields = some f → fields' = some g → covered f.right g.right = true →
      Describes W f.right a → Describes W (joinValues f.right g.right) a)
    (h : FieldsDescribe W fields v) :
    FieldsDescribe W (joinPointers joinPairFields fields fields') v := by
  cases fields with
  | none =>
    rw [FieldsDescribe] at h
    exact h.elim
  | some f =>
    cases fields' with
    | none => exact h
    | some g =>
      rw [fieldsDescribe_some] at h
      obtain ⟨a, b, hab, ha, hb⟩ := h
      have hvoid : isVoid f.left = false := by
        rw [← Bool.not_eq_true]
        exact fun hvoid => not_hasShape_of_isVoid _ le_rfl hvoid ha.1
      have hvoid' : isVoid f.right = false := by
        rw [← Bool.not_eq_true]
        exact fun hvoid => not_hasShape_of_isVoid _ le_rfl hvoid hb.1
      rw [fieldsCovered_some, hvoid, hvoid', Bool.false_or, Bool.false_or, Bool.and_eq_true]
        at hcovered
      show FieldsDescribe W (some (joinPairFields f g)) v
      rw [fieldsDescribe_some]
      exact ⟨a, b, hab, hleft f g a rfl rfl hcovered.1 ha, hright f g b rfl rfl hcovered.2 hb⟩

theorem elementDescribes_join {element element' : Option AbstractValue}
    (hcovered : pointerCovered element element' = true)
    (hjoin : ∀ e e' a, element = some e → element' = some e' → covered e e' = true →
      Describes W e a → Describes W (joinValues e e') a)
    (h : ElementDescribes W element v) :
    ElementDescribes W (joinPointers joinValues element element') v := by
  cases element with
  | none =>
    rw [ElementDescribes] at h
    exact h.elim
  | some e =>
    cases element' with
    | none => exact h
    | some e' =>
      rw [elementDescribes_some] at h
      rw [pointerCovered_some] at hcovered
      show ElementDescribes W (some (joinValues e e')) v
      rw [elementDescribes_some]
      exact ⟨h.1, fun a ha => hjoin e e' a rfl rfl hcovered (h.2 a ha)⟩

/-- The join of the facts of an object describes what the covered one describes. -/
theorem hasShape_join_object (hl : lhs.kind = .object) (hr : rhs.kind = .object)
    (hcovered : covered lhs rhs = true)
    (hinner : ∀ a b w, Inner lhs a → Inner rhs b → covered a b = true → Describes W a w →
      Describes W (joinValues a b) w)
    (h : HasShape W lhs v) : HasShape W (joinSameKind lhs rhs) v := by
  have hjoined : (joinSameKind lhs rhs).kind = .object := by
    rw [joinSameKind, hl]
    exact hl
  rw [hasShape_object hjoined, joinSameKind, hl]
  dsimp only
  rw [covered_object hl hr, Bool.or_eq_true] at hcovered
  by_cases hopaqueObject : (lhs.includesOpaqueObject || rhs.includesOpaqueObject) = true
  · -- any reference is described anyway
    rcases reference_of_hasShape hl h with ⟨hnil, hv⟩ | hreference
    · exact .inl ⟨by rw [hnil, Bool.true_or], hv⟩
    · exact .inr (.inr (.inl ⟨hopaqueObject, hreference⟩))
  have hboth := hcovered.resolve_left hopaqueObject
  rw [Bool.and_eq_true] at hboth
  obtain ⟨hnamed, hfields⟩ := hboth
  rw [hasShape_object hl] at h
  rcases h with ⟨hnil, hv⟩ | ⟨site, hsite, hv⟩ | ⟨hopaque', hv⟩ | ⟨type, htype, hv⟩ | hv
  · exact .inl ⟨by rw [hnil, Bool.true_or], hv⟩
  · exact .inr (.inl ⟨site, Finset.mem_union_left _ hsite, hv⟩)
  · exact absurd (by rw [hopaque', Bool.true_or]) hopaqueObject
  · exact .inr (.inr (.inr (.inl ⟨type, joinNamedType_of_covered hnamed htype, hv⟩)))
  · apply Or.inr ∘ Or.inr ∘ Or.inr ∘ Or.inr
    apply fieldsDescribe_join hfields _ _ hv
    · intro f g a hf hg hcovered ha
      exact hinner _ _ a (.inl ⟨f, hf, .inl rfl⟩) (.inl ⟨g, hg, .inl rfl⟩) hcovered ha
    · intro f g a hf hg hcovered ha
      exact hinner _ _ a (.inl ⟨f, hf, .inr rfl⟩) (.inl ⟨g, hg, .inr rfl⟩) hcovered ha

theorem hasShape_join_refArray (hl : lhs.kind = .refArray) (hr : rhs.kind = .refArray)
    (hcovered : covered lhs rhs = true)
    (hinner : ∀ a b w, Inner lhs a → Inner rhs b → covered a b = true → Describes W a w →
      Describes W (joinValues a b) w)
    (h : HasShape W lhs v) : HasShape W (joinSameKind lhs rhs) v := by
  have hjoined : (joinSameKind lhs rhs).kind = .refArray := by
    rw [joinSameKind, hl]
    exact hl
  rw [hasShape_refArray hjoined, joinSameKind, hl]
  dsimp only
  rw [covered_refArray hl hr] at hcovered
  rw [hasShape_refArray hl] at h
  rcases h with ⟨site, hsite, hv⟩ | hv
  · exact .inl ⟨site, Finset.mem_union_left _ hsite, hv⟩
  · apply Or.inr
    apply elementDescribes_join hcovered _ hv
    intro e e' a he he' hcovered ha
    exact hinner _ _ a (.inr (.inl he)) (.inr (.inl he')) hcovered ha

theorem hasShape_join_weak (hl : lhs.kind = .weak) (hr : rhs.kind = .weak)
    (hcovered : covered lhs rhs = true)
    (hinner : ∀ a b w, Inner lhs a → Inner rhs b → covered a b = true → Describes W a w →
      Describes W (joinValues a b) w)
    (h : HasShape W lhs v) : HasShape W (joinSameKind lhs rhs) v := by
  rw [covered_weak hl hr] at hcovered
  rw [hasShape_weak hl] at h
  rw [joinSameKind, hl]
  dsimp only
  split
  case h_1 t t' ht ht' =>
    split
    · exact hasShape_poisonValue
    · rw [hasShape_weak (by exact hl)]
      dsimp only
      rw [ht, targetDescribes_some] at h
      rw [targetDescribes_some]
      rw [ht, ht', pointerCovered_some] at hcovered
      exact ⟨h.1, fun a ha =>
        hinner _ _ a (.inr (.inr ht)) (.inr (.inr ht')) hcovered (h.2 a ha)⟩
  case h_2 => exact hasShape_poisonValue

theorem hasShape_ite {c : Prop} [Decidable c] (h : HasShape W fact v) :
    HasShape W (if c then fact else poisonValue) v := by
  split
  · exact h
  · exact hasShape_poisonValue

/-- A nominal fact that may be nil too. -/
theorem hasShape_withNil {includesNil : Bool} (hkind : fact.kind = .record ∨ fact.kind = .variant)
    (hnil : fact.includesNil = true → includesNil = true) (source test : Option ℕ)
    (h : HasShape W fact v) :
    HasShape W { fact with
      includesNil := includesNil
      sourceLocal := source
      nilTestLocal := test } v := by
  rcases hkind with hkind | hkind
  · rw [hasShape_record (by exact hkind)]
    rw [hasShape_record hkind] at h
    exact h.imp (fun ⟨h, hv⟩ => ⟨hnil h, hv⟩) id
  · rw [hasShape_variant (by exact hkind)]
    rw [hasShape_variant hkind] at h
    exact h.imp (fun ⟨h, hv⟩ => ⟨hnil h, hv⟩) id

theorem hasShape_joinSameKind (hmaybe : lhs.kind ≠ .maybeReference) (hkind : lhs.kind = rhs.kind)
    (hcovered : covered lhs rhs = true)
    (hinner : ∀ a b w, Inner lhs a → Inner rhs b → covered a b = true → Describes W a w →
      Describes W (joinValues a b) w)
    (h : HasShape W lhs v) : HasShape W (joinSameKind lhs rhs) v := by
  have horigins : HasShape W (withJoinedOrigins lhs rhs) v := (hasShape_withOrigins _ _).mpr h
  have hnil : lhs.includesNil = true → (lhs.includesNil || rhs.includesNil) = true :=
    fun hnil => by rw [hnil, Bool.true_or]
  cases hlhs : lhs.kind
  case object => exact hasShape_join_object hlhs (hkind ▸ hlhs) hcovered hinner h
  case refArray => exact hasShape_join_refArray hlhs (hkind ▸ hlhs) hcovered hinner h
  case weak => exact hasShape_join_weak hlhs (hkind ▸ hlhs) hcovered hinner h
  case maybeReference => exact absurd hlhs hmaybe
  case record =>
    rw [joinSameKind, hlhs]
    exact hasShape_ite (hasShape_withNil (.inl hlhs) hnil _ _ h)
  case variant =>
    rw [joinSameKind, hlhs]
    exact hasShape_ite (hasShape_withNil (.inr hlhs) hnil _ _ h)
  case function | map | ephemeron =>
    rw [joinSameKind, hlhs]
    exact hasShape_ite horigins
  all_goals
    rw [joinSameKind, hlhs]
    exact horigins

theorem isNil_of_canonical (hnil : isCanonicalNilObject fact = true) (h : HasShape W fact v) :
    W.isNil v := by
  simp only [isCanonicalNilObject, Bool.and_eq_true, beq_iff_eq, decide_eq_true_eq,
    Bool.not_eq_true', Option.isNone_iff_eq_none] at hnil
  obtain ⟨⟨⟨⟨⟨⟨⟨⟨⟨⟨⟨⟨hobject, -⟩, hsites⟩, -⟩, hopaqueObject⟩, hfields⟩, -⟩, -⟩, -⟩, -⟩, hnamed⟩, -⟩, -⟩
    := hnil
  rw [hasShape_object hobject, hsites, hopaqueObject, hfields, hnamed, FieldsDescribe] at h
  rcases h with h | ⟨site, hsite, -⟩ | ⟨h, -⟩ | ⟨type, h, -⟩ | h
  · exact h.2
  · exact absurd hsite (Finset.notMem_empty site)
  · exact nomatch h
  · exact nomatch h
  · exact h.elim

theorem hasShape_of_isNil (hkind : fact.kind = .record ∨ fact.kind = .variant)
    (hnil : fact.includesNil = true) (h : W.isNil v) : HasShape W fact v := by
  rcases hkind with hkind | hkind
  · rw [hasShape_record hkind]
    exact .inl ⟨hnil, h⟩
  · rw [hasShape_variant hkind]
    exact .inl ⟨hnil, h⟩

/-- The origins of a join are those of its left side, or none. -/
theorem origins_joinSameKind (lhs rhs : AbstractValue) (origin : ℕ) :
    ((joinSameKind lhs rhs).sourceLocal = some origin → lhs.sourceLocal = some origin) ∧
      ((joinSameKind lhs rhs).nilTestLocal = some origin → lhs.nilTestLocal = some origin) := by
  have horigins : ((withJoinedOrigins lhs rhs).sourceLocal = some origin →
        lhs.sourceLocal = some origin) ∧
      ((withJoinedOrigins lhs rhs).nilTestLocal = some origin →
        lhs.nilTestLocal = some origin) := ⟨joinOrigin_left, joinOrigin_left⟩
  have hpoison : (poisonValue.sourceLocal = some origin → lhs.sourceLocal = some origin) ∧
      (poisonValue.nilTestLocal = some origin → lhs.nilTestLocal = some origin) := ⟨nofun, nofun⟩
  unfold joinSameKind
  cases lhs.kind <;> simp only <;> repeat' split
  all_goals first | exact horigins | exact hpoison

theorem origins_join (hl : Plain sites size depth lhs) (hr : Plain sites size depth rhs)
    (h : HasOrigins W lhs v) : HasOrigins W (joinValues lhs rhs) v := by
  rcases joinValues_cases hl.kind_ne hr.kind_ne with ⟨-, heq⟩ | ⟨-, heq⟩ | ⟨-, heq⟩ | ⟨-, -, heq⟩
  · rw [heq]
    exact hasOrigins_join h (fun _ => joinOrigin_left) fun _ => joinOrigin_left
  · rw [heq]
    refine hasOrigins_join h (fun origin horigin => ?_) fun origin horigin => ?_
    · exact joinOrigin_left ((joinOrigin_comm _ _).trans horigin)
    · exact joinOrigin_left ((joinOrigin_comm _ _).trans horigin)
  · rw [heq]
    exact hasOrigins_of_bare bare_poisonValue
  · rw [heq]
    exact hasOrigins_join h (fun origin => (origins_joinSameKind lhs rhs origin).1)
      fun origin => (origins_joinSameKind lhs rhs origin).2

/-- The join of two facts describes what a covered one describes. -/
theorem describes_join_plain (n : ℕ) : ∀ {lhs rhs : AbstractValue} {v : V},
    lhs.depth + rhs.depth ≤ n → Plain sites size depth lhs → Plain sites size depth rhs →
      covered lhs rhs = true → Describes W lhs v → Describes W (joinValues lhs rhs) v := by
  -- by induction on how deep the facts nest
  induction n with
  | zero =>
    intro lhs rhs v hdepth
    have hlhs := lhs.depth_eq
    omega
  | succ n ih =>
    intro lhs rhs v hdepth hl hr hcovered h
    have hinner : ∀ a b w, Inner lhs a → Inner rhs b → covered a b = true → Describes W a w →
        Describes W (joinValues a b) w := by
      intro a b w ha hb
      obtain ⟨hasize, haplain⟩ := hl.inner ha
      obtain ⟨hbsize, hbplain⟩ := hr.inner hb
      exact ih (by omega) haplain hbplain
    refine ⟨?_, origins_join hl hr h.2⟩
    rcases joinValues_cases hl.kind_ne hr.kind_ne with ⟨hn, heq⟩ | ⟨hn, heq⟩ | ⟨-, heq⟩ |
      ⟨hkind, -, heq⟩
    · rw [heq]
      exact hasShape_withNil hn.1 (fun _ => rfl) _ _ h.1
    · rw [heq]
      exact hasShape_of_isNil hn.1 rfl (isNil_of_canonical hn.2 h.1)
    · rw [heq]
      exact hasShape_poisonValue
    · rw [heq]
      exact hasShape_joinSameKind hl.kind_ne hkind hcovered hinner h.1

theorem Plain.describes_join (hl : Plain sites size depth lhs) (hr : Plain sites size depth rhs)
    (hcovered : covered lhs rhs = true) (h : Describes W lhs v) :
    Describes W (joinValues lhs rhs) v :=
  describes_join_plain _ le_rfl hl hr hcovered h

/-! ## Facts -/

theorem hasShape_withoutProvenance (h : HasShape W fact v) : HasShape W (withoutProvenance fact) v :=
  (hasShape_withOrigins none none).mpr h

theorem describes_poisonValue : Describes W poisonValue v :=
  ⟨hasShape_poisonValue, hasOrigins_of_bare bare_poisonValue⟩

theorem describes_joinedMaybe (h : W.isNil v ∨ HasShape W fact v) :
    Describes W (joinedMaybe fact) v := by
  unfold joinedMaybe
  split
  · exact describes_poisonValue
  · refine ⟨?_, hasOrigins_of_bare ⟨rfl, rfl⟩⟩
    rw [maybeReferenceValue_eq, hasShape_maybeOf]
    exact h.imp id fun h => ⟨hasShape_withoutProvenance h, hasOrigins_of_bare ⟨rfl, rfl⟩⟩

/-- The join of two facts of a place describes what a covered one describes. -/
theorem Fact.describes_join (hl : Fact sites size depth lhs) (hr : Fact sites size depth rhs)
    (hcovered : covered (withoutMaybe lhs) (withoutMaybe rhs) = true) (h : Describes W lhs v) :
    Describes W (joinValues lhs rhs) v := by
  cases hl with
  | plain hl =>
    rw [withoutMaybe_plain hl] at hcovered
    cases hr with
    | plain hr =>
      rw [withoutMaybe_plain hr] at hcovered
      exact hl.describes_join hr hcovered h
    | maybe source test hne hr =>
      rw [withoutMaybe_maybeOf] at hcovered
      rcases joinValues_maybe_plain hl source test with ⟨-, -, heq⟩ | ⟨-, heq⟩
      · rw [heq, hr.joinValues_comm hl]
        exact describes_joinedMaybe (.inr (hl.describes_join hr hcovered h).1)
      · rw [heq]
        exact describes_poisonValue
  | @maybe target source test hne hl =>
    rw [withoutMaybe_maybeOf] at hcovered
    obtain ⟨hshape, horigins⟩ := h
    rw [hasShape_maybeOf] at hshape
    cases hr with
    | plain hr =>
      rw [withoutMaybe_plain hr] at hcovered
      rcases joinValues_maybe_plain hr source test with ⟨-, heq, -⟩ | ⟨heq, -⟩
      · rw [heq]
        apply describes_joinedMaybe
        exact hshape.imp id fun h => (hl.describes_join hr hcovered h).1
      · rw [heq]
        exact describes_poisonValue
    | @maybe target' source' test' hne' hr =>
      rw [withoutMaybe_maybeOf] at hcovered
      rw [joinValues_maybe_maybe hl hr]
      split
      · exact describes_poisonValue
      · refine ⟨?_, hasOrigins_join horigins (fun _ => joinOrigin_left) fun _ => joinOrigin_left⟩
        rw [hasShape_maybeOf]
        exact hshape.imp id fun h => hl.describes_join hr hcovered h

end Bounds

end LanguageRuntime.Bytecode
