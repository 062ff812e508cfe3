import LanguageRuntime.Bytecode.Describe

/-!
# The laws of joins

The join of two facts is the same either way round, and a fact joined with itself stays what it
is, or has no join, just when it is settled.
-/

namespace LanguageRuntime.Bytecode

/-! ## Joins either way round -/

section Commutes

variable {sites size depth : ℕ} {lhs rhs : AbstractValue}

theorem joinOrigin_comm (lhs rhs : Option ℕ) : joinOrigin lhs rhs = joinOrigin rhs lhs := by
  unfold joinOrigin
  by_cases h : lhs = rhs
  · rw [if_pos h, if_pos h.symm, h]
  · rw [if_neg h, if_neg (Ne.symm h)]

theorem joinNamedType_comm (lhs rhs : Option ℕ) : joinNamedType lhs rhs = joinNamedType rhs lhs := by
  unfold joinNamedType
  by_cases h : lhs = rhs
  · rw [if_pos h, if_pos h.symm, h]
  · rw [if_neg h, if_neg (Ne.symm h)]
    cases lhs <;> cases rhs <;> rfl

theorem joinPointers_comm {α : Type} {join : α → α → α} {lhs rhs : Option α}
    (h : ∀ a b, lhs = some a → rhs = some b → join a b = join b a) :
    joinPointers join lhs rhs = joinPointers join rhs lhs := by
  cases lhs with
  | none => cases rhs <;> rfl
  | some a =>
    cases rhs with
    | none => rfl
    | some b => exact congrArg some (h a b rfl rfl)

theorem Plain.inner {value inner : AbstractValue} (h : Plain sites size depth value)
    (hinner : Inner value inner) : inner.depth < value.depth ∧ Plain sites size depth inner := by
  rcases hinner with ⟨f, hf, rfl | rfl⟩ | he | ht
  · exact ⟨(AbstractValue.depth_signatureFields hf).1, (h.shape.fields f hf).1.plain⟩
  · exact ⟨(AbstractValue.depth_signatureFields hf).2, (h.shape.fields f hf).2.plain⟩
  · exact ⟨AbstractValue.depth_signatureArrayElement he, (h.shape.element _ he).plain⟩
  · exact ⟨AbstractValue.depth_referenceTarget ht, h.shape.target _ ht⟩

/-- A join of values with the same details, either way round. -/
theorem ite_eq_comm {α β : Type} [DecidableEq α] {x y : Option α} {a b c : β}
    (h : x = y → a = b) :
    (if x.isSome = true ∧ x = y then a else c) = if y.isSome = true ∧ y = x then b else c := by
  by_cases heq : x = y
  · rw [h heq, heq]
  · rw [if_neg fun hx => heq hx.2, if_neg fun hy => heq hy.2.symm]

/-- Two tidy values of one kind: a join takes what it does not join from either. -/
theorem joinSameKind_comm (hl : Tidy lhs) (hr : Tidy rhs) (hkind : lhs.kind = rhs.kind)
    (hinner : ∀ a b, Inner lhs a → Inner rhs b → joinValues a b = joinValues b a) :
    joinSameKind lhs rhs = joinSameKind rhs lhs := by
  have hfields : joinPointers joinPairFields lhs.signatureFields rhs.signatureFields =
      joinPointers joinPairFields rhs.signatureFields lhs.signatureFields := by
    apply joinPointers_comm
    intro f g hf hg
    rw [joinPairFields, joinPairFields,
      hinner f.left g.left (.inl ⟨f, hf, .inl rfl⟩) (.inl ⟨g, hg, .inl rfl⟩),
      hinner f.right g.right (.inl ⟨f, hf, .inr rfl⟩) (.inl ⟨g, hg, .inr rfl⟩)]
  have helement : joinPointers joinValues lhs.signatureArrayElement rhs.signatureArrayElement =
      joinPointers joinValues rhs.signatureArrayElement lhs.signatureArrayElement :=
    joinPointers_comm fun a b ha hb => hinner a b (.inr (.inl ha)) (.inr (.inl hb))
  have htarget : ∀ a b, lhs.referenceTarget = some a → rhs.referenceTarget = some b →
      joinValues a b = joinValues b a := fun a b ha hb =>
    hinner a b (.inr (.inr ha)) (.inr (.inr hb))
  clear hinner
  obtain ⟨kind, sites, arraySites, opaqueObject, includesNil, fields, element, function, map, target,
    named, record, variant, source, test⟩ := lhs
  obtain ⟨kind', sites', arraySites', opaqueObject', includesNil', fields', element', function',
    map', target', named', record', variant', source', test'⟩ := rhs
  obtain ⟨object, nil, array, functions, maps, targets, records, variants⟩ := hl
  obtain ⟨object', nil', array', functions', maps', targets', records', variants'⟩ := hr
  dsimp only at *
  subst hkind
  have hsource := joinOrigin_comm source source'
  have htest := joinOrigin_comm test test'
  cases kind <;> simp_all [joinSameKind, withJoinedOrigins]
  case object =>
    exact ⟨Finset.union_comm _ _, Bool.or_comm _ _, Bool.or_comm _ _, joinNamedType_comm _ _⟩
  case refArray => exact Finset.union_comm _ _
  case function => exact ite_eq_comm (by rintro rfl; rfl)
  case map | ephemeron => exact ite_eq_comm (by rintro rfl; rfl)
  case record | variant => exact ite_eq_comm (by rintro rfl; rw [Bool.or_comm])
  case weak | maybeReference =>
    cases target with
    | none => cases target' <;> rfl
    | some t =>
      cases target' with
      | none => rfl
      | some t' => simp only [htarget t t' rfl rfl]

theorem joinValues_comm_plain (n : ℕ) : ∀ {lhs rhs : AbstractValue}, lhs.depth + rhs.depth ≤ n →
    Plain sites size depth lhs → Plain sites size depth rhs →
      joinValues lhs rhs = joinValues rhs lhs := by
  -- by induction on how deep the facts nest
  induction n with
  | zero =>
    intro lhs rhs hdepth
    have hlhs := lhs.depth_eq
    omega
  | succ n ih =>
    intro lhs rhs hdepth hl hr
    have hinner : ∀ a b, Inner lhs a → Inner rhs b → joinValues a b = joinValues b a := by
      intro a b ha hb
      obtain ⟨hasize, haplain⟩ := hl.inner ha
      obtain ⟨hbsize, hbplain⟩ := hr.inner hb
      exact ih (by omega) haplain hbplain
    rcases joinValues_cases hl.kind_ne hr.kind_ne with ⟨h, heq⟩ | ⟨h, heq⟩ | ⟨hkind, heq⟩ |
      ⟨hkind, hne, heq⟩
    · rw [heq, joinValues_of_nominal_right h]
    · rw [heq, joinValues_of_nominal_left h]
    · rcases joinValues_cases hr.kind_ne hl.kind_ne with ⟨h, heq'⟩ | ⟨h, heq'⟩ | ⟨-, heq'⟩ |
        ⟨hsame, hne, -⟩
      · rw [heq', joinValues_of_nominal_right h]
      · rw [heq', joinValues_of_nominal_left h]
      · rw [heq, heq']
      · exact absurd hkind (not_or.mpr ⟨not_not.mpr hsame.symm, hsame ▸ hne⟩)
    · rw [heq, joinSameKind_comm hl.shape.tidy hr.shape.tidy hkind hinner,
        joinValues_of_kind_eq (maybeTarget_of_kind_ne hr.kind_ne)
          (maybeTarget_of_kind_ne hl.kind_ne) hkind.symm (hkind ▸ hne)]

theorem Plain.joinValues_comm (hl : Plain sites size depth lhs) (hr : Plain sites size depth rhs) :
    joinValues lhs rhs = joinValues rhs lhs :=
  joinValues_comm_plain _ le_rfl hl hr

/-- The join of two facts is the same either way round. -/
theorem Fact.joinValues_comm (hl : Fact sites size depth lhs) (hr : Fact sites size depth rhs) :
    joinValues lhs rhs = joinValues rhs lhs := by
  cases hl with
  | plain hl =>
    cases hr with
    | plain hr => exact hl.joinValues_comm hr
    | maybe source test hne hr =>
      rcases joinValues_maybe_plain hl source test with ⟨-, heq, heq'⟩ | ⟨heq, heq'⟩
      · rw [heq, heq']
      · rw [heq, heq']
  | maybe source test hne hl =>
    cases hr with
    | plain hr =>
      rcases joinValues_maybe_plain hr source test with ⟨-, heq, heq'⟩ | ⟨heq, heq'⟩
      · rw [heq, heq']
      · rw [heq, heq']
    | maybe source' test' hne' hr =>
      rw [joinValues_maybe_maybe hl hr, joinValues_maybe_maybe hr hl, hl.joinValues_comm hr,
        joinOrigin_comm source, joinOrigin_comm test]

end Commutes

/-! ## Joins with itself -/

section Idempotent

variable {sites size depth : ℕ} {value : AbstractValue}

theorem joinOrigin_self (origin : Option ℕ) : joinOrigin origin origin = origin := if_pos rfl

theorem withJoinedOrigins_self (value : AbstractValue) : withJoinedOrigins value value = value := by
  cases value
  simp only [withJoinedOrigins, joinOrigin_self]

theorem joinNamedType_self (named : Option ℕ) : joinNamedType named named = named := if_pos rfl

/-- The contents and the target of a value, replaced. -/
theorem joinSameKind_self_object (h : value.kind = .object) : joinSameKind value value =
    { value with
      signatureFields := joinPointers joinPairFields value.signatureFields
        value.signatureFields } := by
  unfold joinSameKind
  rw [h]
  simp only [withJoinedOrigins_self, Finset.union_self, Bool.or_self, joinNamedType_self, h]

theorem joinSameKind_self_refArray (h : value.kind = .refArray) : joinSameKind value value =
    { value with
      signatureArrayElement := joinPointers joinValues value.signatureArrayElement
        value.signatureArrayElement } := by
  unfold joinSameKind
  rw [h]
  simp only [withJoinedOrigins_self, Finset.union_self, h]

theorem joinSameKind_self_weak (h : value.kind = .weak) : joinSameKind value value =
    match value.referenceTarget with
    | some target =>
      if isPoison (joinValues target target) then poisonValue
      else { value with referenceTarget := some (joinValues target target) }
    | none => poisonValue := by
  unfold joinSameKind
  rw [h]
  cases value.referenceTarget <;> simp only [withJoinedOrigins_self, h]

theorem joinSameKind_self_function (h : value.kind = .function) : joinSameKind value value =
    if value.signatureFunction.isSome = true then value else poisonValue := by
  unfold joinSameKind
  rw [h]
  simp only [withJoinedOrigins_self, and_true]

theorem joinSameKind_self_entries (h : value.kind = .map ∨ value.kind = .ephemeron) :
    joinSameKind value value =
      if value.signatureMap.isSome = true then value else poisonValue := by
  unfold joinSameKind
  rcases h with h | h <;> rw [h] <;> simp only [withJoinedOrigins_self, and_true]

theorem withNil_self (value : AbstractValue) :
    { value with includesNil := value.includesNil || value.includesNil } = value := by
  rw [Bool.or_self]
  cases value
  rfl

theorem joinSameKind_self_record (h : value.kind = .record) : joinSameKind value value =
    if value.signatureRecordLayout.isSome = true then value else poisonValue := by
  have hself := withNil_self value
  unfold joinSameKind
  rw [h] at hself ⊢
  simp only [withJoinedOrigins_self, and_true, h, hself]

theorem joinSameKind_self_variant (h : value.kind = .variant) : joinSameKind value value =
    if value.signatureVariantLayout.isSome = true then value else poisonValue := by
  have hself := withNil_self value
  unfold joinSameKind
  rw [h] at hself ⊢
  simp only [withJoinedOrigins_self, and_true, h, hself]

/-- A fact with the details a join needs, a fact without them, and a fact with contents. -/
theorem joinValues_self (h : Plain sites size depth value) (hne : value.kind ≠ .poison) :
    joinValues value value = joinSameKind value value :=
  joinValues_of_kind_eq (maybeTarget_of_kind_ne h.kind_ne) (maybeTarget_of_kind_ne h.kind_ne) rfl hne

theorem joinValues_poison (h : Plain sites size depth value) (hpoison : value.kind = .poison) :
    joinValues value value = value := by
  rcases joinValues_cases h.kind_ne h.kind_ne with ⟨hn, -⟩ | ⟨hn, -⟩ | ⟨-, heq⟩ | ⟨-, hne, -⟩
  · exact absurd (hn.kinds.2.symm.trans hpoison) nofun
  · exact absurd (hn.kinds.2.symm.trans hpoison) nofun
  · rw [heq, h.shape.poison hpoison]
  · exact absurd hpoison hne

theorem isFull_eq (value : AbstractValue) : isFull value =
    match value.kind with
    | .object => fieldsFull value.signatureFields
    | .refArray => elementFull value.signatureArrayElement
    | .function => value.signatureFunction.isSome
    | .map | .ephemeron => value.signatureMap.isSome
    | .record => value.signatureRecordLayout.isSome
    | .variant => value.signatureVariantLayout.isSome
    | .weak => targetFull value.referenceTarget
    | _ => true := by
  cases value with
  | mk kind => cases kind <;> rfl

theorem isFull_object (h : value.kind = .object) : isFull value = fieldsFull value.signatureFields := by
  rw [isFull_eq, h]

theorem isFull_refArray (h : value.kind = .refArray) :
    isFull value = elementFull value.signatureArrayElement := by
  rw [isFull_eq, h]

theorem isFull_function (h : value.kind = .function) :
    isFull value = value.signatureFunction.isSome := by
  rw [isFull_eq, h]

theorem isFull_entries (h : value.kind = .map ∨ value.kind = .ephemeron) :
    isFull value = value.signatureMap.isSome := by
  rw [isFull_eq]
  rcases h with h | h <;> rw [h]

theorem isFull_record (h : value.kind = .record) :
    isFull value = value.signatureRecordLayout.isSome := by
  rw [isFull_eq, h]

theorem isFull_variant (h : value.kind = .variant) :
    isFull value = value.signatureVariantLayout.isSome := by
  rw [isFull_eq, h]

theorem isFull_weak (h : value.kind = .weak) : isFull value = targetFull value.referenceTarget := by
  rw [isFull_eq, h]

theorem withFields_eq_iff {fields : Option PairFields} :
    { value with signatureFields := fields } = value ↔ fields = value.signatureFields := by
  refine ⟨fun h => congrArg AbstractValue.signatureFields h, fun h => ?_⟩
  subst h
  cases value
  rfl

theorem withElement_eq_iff {element : Option AbstractValue} :
    { value with signatureArrayElement := element } = value ↔
      element = value.signatureArrayElement := by
  refine ⟨fun h => congrArg AbstractValue.signatureArrayElement h, fun h => ?_⟩
  subst h
  cases value
  rfl

theorem withTarget_eq_iff {target : Option AbstractValue} :
    { value with referenceTarget := target } = value ↔ target = value.referenceTarget := by
  refine ⟨fun h => congrArg AbstractValue.referenceTarget h, fun h => ?_⟩
  subst h
  cases value
  rfl

/-- The fields of a fact stay what they are when every field does. -/
theorem joinPairFields_self_iff {fields : Option PairFields}
    (h : ∀ f, fields = some f → (joinValues f.left f.left = f.left ↔ isFull f.left = true) ∧
      (joinValues f.right f.right = f.right ↔ isFull f.right = true)) :
    joinPointers joinPairFields fields fields = fields ↔ fieldsFull fields = true := by
  cases fields with
  | none => simp [joinPointers, fieldsFull]
  | some fields =>
    obtain ⟨hleft, hright⟩ := h fields rfl
    obtain ⟨left, right⟩ := fields
    rw [joinPointers, fieldsFull, Option.some.injEq, Bool.and_eq_true, joinPairFields,
      Fields.mk.injEq]
    exact and_congr hleft hright

theorem joinElement_self_iff {element : Option AbstractValue}
    (h : ∀ e, element = some e → (joinValues e e = e ↔ isFull e = true)) :
    joinPointers joinValues element element = element ↔ elementFull element = true := by
  cases element with
  | none => simp [joinPointers, elementFull]
  | some element =>
    rw [joinPointers, elementFull, Option.some.injEq]
    exact h element rfl

theorem poisonValue_ne (hne : value.kind ≠ .poison) : poisonValue ≠ value := fun h =>
  hne (congrArg AbstractValue.kind h).symm

/-- A nominal, structural or scalar fact: with itself it is what it is, or has no join. -/
theorem ite_self_iff {c : Prop} [Decidable c] (hne : value.kind ≠ .poison) :
    (if c then value else poisonValue) = value ↔ c := by
  split
  case isTrue h => exact ⟨fun _ => h, fun _ => rfl⟩
  case isFalse h => exact ⟨fun heq => absurd heq (poisonValue_ne hne), fun hc => absurd hc h⟩

/-- A fact joined with itself stays what it is just when it has all details. -/
theorem joinValues_self_iff (n : ℕ) : ∀ {value : AbstractValue}, value.depth ≤ n →
    Plain sites size depth value → (joinValues value value = value ↔ isFull value = true) := by
  -- by induction on how deep the fact nests
  induction n with
  | zero =>
    intro value hdepth
    have heq := value.depth_eq
    omega
  | succ n ih =>
    intro value hdepth h
    have hinner : ∀ a, Inner value a → (joinValues a a = a ↔ isFull a = true) := by
      intro a ha
      obtain ⟨hsize, hplain⟩ := h.inner ha
      exact ih (by omega) hplain
    by_cases hpoison : value.kind = .poison
    · rw [joinValues_poison h hpoison, h.shape.poison hpoison]
      simp [poisonValue, valueWithKind, isFull]
    rw [joinValues_self h hpoison]
    cases hkind : value.kind
    case object =>
      rw [joinSameKind_self_object hkind, withFields_eq_iff, isFull_object hkind]
      exact joinPairFields_self_iff fun f hf =>
        ⟨hinner _ (.inl ⟨f, hf, .inl rfl⟩), hinner _ (.inl ⟨f, hf, .inr rfl⟩)⟩
    case refArray =>
      rw [joinSameKind_self_refArray hkind, withElement_eq_iff, isFull_refArray hkind]
      exact joinElement_self_iff fun e he => hinner e (.inr (.inl he))
    case weak =>
      rw [joinSameKind_self_weak hkind, isFull_weak hkind]
      cases htarget : value.referenceTarget with
      | none => simp [targetFull, poisonValue_ne hpoison]
      | some target =>
        have hself := hinner target (.inr (.inr htarget))
        rw [targetFull, ← hself]
        dsimp only
        split
        case isTrue hjoined =>
          have hne : joinValues target target ≠ target := fun heq => by
            rw [heq] at hjoined
            exact h.shape.alive target htarget (by simpa [isPoison] using hjoined)
          exact ⟨fun heq => absurd heq (poisonValue_ne hpoison), fun heq => absurd heq hne⟩
        case isFalse => rw [withTarget_eq_iff, htarget, Option.some.injEq]
    case maybeReference => exact absurd hkind h.kind_ne
    case function =>
      rw [joinSameKind_self_function hkind, ite_self_iff hpoison, isFull_function hkind]
    case map =>
      rw [joinSameKind_self_entries (.inl hkind), ite_self_iff hpoison,
        isFull_entries (.inl hkind)]
    case ephemeron =>
      rw [joinSameKind_self_entries (.inr hkind), ite_self_iff hpoison,
        isFull_entries (.inr hkind)]
    case record =>
      rw [joinSameKind_self_record hkind, ite_self_iff hpoison, isFull_record hkind]
    case variant =>
      rw [joinSameKind_self_variant hkind, ite_self_iff hpoison, isFull_variant hkind]
    case poison => exact absurd hkind hpoison
    all_goals
      have hself : joinSameKind value value = value := by
        rw [joinSameKind, hkind]
        exact withJoinedOrigins_self value
      have hfull : isFull value = true := by
        cases value
        simp only at hkind
        subst hkind
        rfl
      exact ⟨fun _ => hfull, fun _ => hself⟩

theorem isSettled_eq (value : AbstractValue) : isSettled value =
    match value.kind with
    | .object => fieldsFull value.signatureFields
    | .refArray => elementFull value.signatureArrayElement
    | .weak => targetSettled value.referenceTarget
    | _ => true := by
  cases value with
  | mk kind => cases kind <;> rfl

theorem joinSameKind_self_object_ne (h : value.kind = .object) :
    joinSameKind value value ≠ poisonValue := fun heq => by
  rw [joinSameKind_self_object h] at heq
  have hkind := congrArg AbstractValue.kind heq
  exact absurd (h.symm.trans hkind) nofun

theorem joinSameKind_self_refArray_ne (h : value.kind = .refArray) :
    joinSameKind value value ≠ poisonValue := fun heq => by
  rw [joinSameKind_self_refArray h] at heq
  have hkind := congrArg AbstractValue.kind heq
  exact absurd (h.symm.trans hkind) nofun

theorem eq_or_poison_ite {c : Prop} [Decidable c] :
    (if c then value else poisonValue) = value ∨ (if c then value else poisonValue) = poisonValue := by
  split
  · exact .inl rfl
  · exact .inr rfl

/-- A fact joined with itself stays what it is, or has no join, just when it is settled. -/
theorem joinValues_settled_iff (n : ℕ) : ∀ {value : AbstractValue}, value.depth ≤ n →
    Plain sites size depth value →
      (joinValues value value = value ∨ joinValues value value = poisonValue ↔
        isSettled value = true) := by
  -- by induction on how deep the fact nests
  induction n with
  | zero =>
    intro value hdepth
    have heq := value.depth_eq
    omega
  | succ n ih =>
    intro value hdepth h
    have hfull : ∀ a, Inner value a → (joinValues a a = a ↔ isFull a = true) := fun a ha =>
      joinValues_self_iff _ le_rfl (h.inner ha).2
    rw [isSettled_eq]
    by_cases hpoison : value.kind = .poison
    · rw [joinValues_poison h hpoison, hpoison]
      exact ⟨fun _ => rfl, fun _ => .inl rfl⟩
    rw [joinValues_self h hpoison]
    cases hkind : value.kind
    case object =>
      rw [or_iff_left (joinSameKind_self_object_ne hkind), joinSameKind_self_object hkind,
        withFields_eq_iff]
      exact joinPairFields_self_iff fun f hf =>
        ⟨hfull _ (.inl ⟨f, hf, .inl rfl⟩), hfull _ (.inl ⟨f, hf, .inr rfl⟩)⟩
    case refArray =>
      rw [or_iff_left (joinSameKind_self_refArray_ne hkind), joinSameKind_self_refArray hkind,
        withElement_eq_iff]
      exact joinElement_self_iff fun e he => hfull e (.inr (.inl he))
    case weak =>
      rw [joinSameKind_self_weak hkind]
      cases htarget : value.referenceTarget with
      | none => exact ⟨fun _ => rfl, fun _ => .inr rfl⟩
      | some target =>
        obtain ⟨hsize, hplain⟩ := h.inner (.inr (.inr htarget))
        show _ ↔ isSettled target = true
        rw [← ih (by omega) hplain]
        dsimp only
        split
        case isTrue hjoined =>
          have heq : joinValues target target = poisonValue :=
            (hplain.join hplain).shape.poison (by simpa [isPoison] using hjoined)
          exact ⟨fun _ => .inr heq, fun _ => .inr rfl⟩
        case isFalse hjoined =>
          have hne : joinValues target target ≠ poisonValue := fun heq => by
            rw [heq] at hjoined
            exact hjoined rfl
          have hweak : { value with referenceTarget := some (joinValues target target) } ≠
              poisonValue := fun heq => by
            have hkind' := congrArg AbstractValue.kind heq
            cases hkind.symm.trans hkind'
          rw [or_iff_left hweak, or_iff_left hne, withTarget_eq_iff, htarget, Option.some.injEq]
    case maybeReference => exact absurd hkind h.kind_ne
    case function =>
      rw [joinSameKind_self_function hkind]
      exact ⟨fun _ => rfl, fun _ => eq_or_poison_ite⟩
    case map =>
      rw [joinSameKind_self_entries (.inl hkind)]
      exact ⟨fun _ => rfl, fun _ => eq_or_poison_ite⟩
    case ephemeron =>
      rw [joinSameKind_self_entries (.inr hkind)]
      exact ⟨fun _ => rfl, fun _ => eq_or_poison_ite⟩
    case record =>
      rw [joinSameKind_self_record hkind]
      exact ⟨fun _ => rfl, fun _ => eq_or_poison_ite⟩
    case variant =>
      rw [joinSameKind_self_variant hkind]
      exact ⟨fun _ => rfl, fun _ => eq_or_poison_ite⟩
    case poison => exact absurd hkind hpoison
    all_goals
      have hself : joinSameKind value value = value := by
        rw [joinSameKind, hkind]
        exact withJoinedOrigins_self value
      exact ⟨fun _ => rfl, fun _ => .inl hself⟩

/-- Joined with itself, a fact stays what it is or has no join. -/
def SelfJoined (value : AbstractValue) : Prop :=
  joinValues value value = value ∨ joinValues value value = poisonValue

theorem Plain.selfJoined_iff (h : Plain sites size depth value) :
    SelfJoined value ↔ isSettled value = true :=
  joinValues_settled_iff _ le_rfl h

theorem Fact.selfJoined_iff (h : Fact sites size depth value) :
    SelfJoined value ↔ isSettled (withoutMaybe value) = true := by
  cases h with
  | plain h => rw [withoutMaybe_plain h, h.selfJoined_iff]
  | @maybe target source test hne h =>
    rw [withoutMaybe_maybeOf, ← h.selfJoined_iff, SelfJoined, SelfJoined,
      joinValues_maybe_maybe h h, joinOrigin_self, joinOrigin_self]
    split
    case isTrue hjoined =>
      have heq : joinValues target target = poisonValue :=
        (h.join h).shape.poison (by simpa [isPoison] using hjoined)
      exact ⟨fun _ => .inr heq, fun _ => .inr rfl⟩
    case isFalse hjoined =>
      have hpoison : joinValues target target ≠ poisonValue := fun heq => by
        rw [heq] at hjoined
        exact hjoined rfl
      have hmaybe : maybeOf (joinValues target target) source test ≠ poisonValue :=
        fun hno => by cases hno
      rw [or_iff_left hmaybe, or_iff_left hpoison]
      refine ⟨fun heq => ?_, fun heq => by rw [heq]⟩
      exact Option.some.inj (congrArg AbstractValue.referenceTarget heq)

end Idempotent

end LanguageRuntime.Bytecode
