import LanguageRuntime.Bytecode.RankTheorems

/-!
# Joined states fall

The ranks of the facts of a state, maybe-references among them, and of the state. A merge whose
facts do not clash lowers the rank of the state it changes.
-/

namespace LanguageRuntime.Bytecode

/-! ## Facts of a state -/

/-- A maybe-reference with the given origins. -/
def maybeOf (target : AbstractValue) (sourceLocal nilTestLocal : Option ℕ) : AbstractValue :=
  { kind := .maybeReference
    referenceTarget := some target
    sourceLocal := sourceLocal
    nilTestLocal := nilTestLocal }

/-- What a state says of a place: a plain fact, or a maybe-reference to one. -/
inductive Fact (sites size depth : ℕ) : AbstractValue → Prop
  | plain {value : AbstractValue} (h : Plain sites size depth value) : Fact sites size depth value
  | maybe {target : AbstractValue} (sourceLocal nilTestLocal : Option ℕ)
      (hne : target.kind ≠ .poison) (h : Plain sites size depth target) (hbare : Bare target) :
      Fact sites size depth (maybeOf target sourceLocal nilTestLocal)

theorem kind_maybeOf (target : AbstractValue) (sourceLocal nilTestLocal : Option ℕ) :
    (maybeOf target sourceLocal nilTestLocal).kind = .maybeReference := rfl

theorem withoutMaybe_maybeOf (target : AbstractValue) (sourceLocal nilTestLocal : Option ℕ) :
    withoutMaybe (maybeOf target sourceLocal nilTestLocal) = target := rfl

/-- A maybe-reference is below the fact it may be. -/
def factRank (sites depth : ℕ) (value : AbstractValue) : ℕ :=
  match value.kind with
  | .poison => 0
  | .maybeReference =>
    6 * value.referenceTarget.elim 0 (plainRank sites depth) + originRank value
  | _ => 6 * plainRank sites depth value + 3

section Facts

variable {sites size depth : ℕ} {value target lhs rhs : AbstractValue}

theorem shape_withoutProvenance {P Q : AbstractValue → Prop} (h : Shape sites size P Q value) :
    Shape sites size P Q (withoutProvenance value) := by
  by_cases hkind : value.kind = .poison
  · rw [h.poison hkind]
    exact shape_poisonValue
  · exact h.withFlags hkind h.tidy.nil none none

theorem Plain.withoutProvenance (h : Plain sites size depth value) :
    Plain sites size depth (withoutProvenance value) :=
  plain_of_shape (shape_withoutProvenance h.shape)

theorem plainRank_withoutProvenance (hne : value.kind ≠ .poison) :
    plainRank sites depth (withoutProvenance value) + originRank value =
      plainRank sites depth value := by
  have horigins : originRank (Bytecode.withoutProvenance value) = 0 := rfl
  rw [plainRank_eq, plainRank_eq sites depth value, shapeRank, shapeRank]
  cases hkind : value.kind <;>
    simp only [Bytecode.withoutProvenance, hkind, originRank, Option.isSome_none, Bool.toNat_false,
      Nat.add_zero] at hne ⊢ <;> first | exact absurd rfl hne | omega

theorem withoutProvenance_of_originRank (h : originRank value = 0) :
    withoutProvenance value = value := by
  unfold originRank at h
  have hsource : value.sourceLocal = none := by
    cases hcase : value.sourceLocal with
    | none => rfl
    | some _ => rw [hcase] at h; simp at h
  have htest : value.nilTestLocal = none := by
    cases hcase : value.nilTestLocal with
    | none => rfl
    | some _ => rw [hcase] at h; simp at h
  cases value
  simp only at hsource htest
  subst hsource htest
  rfl

/-! ## Joins of facts -/

theorem Plain.kind_ne (h : Plain sites size depth value) : value.kind ≠ .maybeReference :=
  h.shape.plain

theorem factRank_plain (h : Plain sites size depth value) (hne : value.kind ≠ .poison) :
    factRank sites depth value = 6 * plainRank sites depth value + 3 := by
  have hkind := h.kind_ne
  unfold factRank
  split <;> first | contradiction | rfl

theorem factRank_maybe (target : AbstractValue) (sourceLocal nilTestLocal : Option ℕ) :
    factRank sites depth (maybeOf target sourceLocal nilTestLocal) =
      6 * plainRank sites depth target + (sourceLocal.isSome.toNat + nilTestLocal.isSome.toNat) :=
  rfl

theorem plainRank_pos (hne : value.kind ≠ .poison) : 0 < plainRank sites depth value := by
  rw [plainRank_eq]
  exact shapeRank_pos hne

theorem maybeReferenceValue_eq (target : AbstractValue) :
    maybeReferenceValue target = maybeOf (withoutProvenance target) none none := rfl

/-- What the join of a maybe-reference with what it may be is. -/
theorem fact_joinedMaybe (h : Plain sites size depth value) :
    Fact sites size depth (joinedMaybe value) := by
  unfold joinedMaybe
  split
  case isTrue => exact .plain (plain_of_shape shape_poisonValue)
  case isFalse hpoison =>
    rw [maybeReferenceValue_eq]
    exact .maybe none none (kind_ne_of_not_isPoison hpoison) h.withoutProvenance ⟨rfl, rfl⟩

/-- Its rank, against that of the value itself. -/
theorem factRank_joinedMaybe (value : AbstractValue) :
    factRank sites depth (joinedMaybe value) ≤ 6 * plainRank sites depth value ∧
      (factRank sites depth (joinedMaybe value) = 6 * plainRank sites depth value →
        value.kind ≠ .poison → joinedMaybe value = maybeOf value none none) := by
  unfold joinedMaybe
  split
  case isTrue hpoison =>
    have hkind : value.kind = .poison := by simpa [isPoison] using hpoison
    exact ⟨Nat.zero_le _, fun _ hne => absurd hkind hne⟩
  case isFalse hpoison =>
    have hrank : plainRank sites depth (withoutProvenance value) + originRank value =
        plainRank sites depth value :=
      plainRank_withoutProvenance (kind_ne_of_not_isPoison hpoison)
    rw [maybeReferenceValue_eq, factRank_maybe, Option.isSome_none, Bool.toNat_false]
    refine ⟨by omega, fun heq _ => ?_⟩
    rw [withoutProvenance_of_originRank (by omega)]

theorem maybeTarget_maybeOf (sourceLocal nilTestLocal : Option ℕ) (target rhs : AbstractValue) :
    maybeTarget (maybeOf target sourceLocal nilTestLocal) rhs =
      if target.kind = rhs.kind then some target else none := by
  rw [maybeTarget, if_pos (kind_maybeOf _ _ _)]
  show Option.filter _ (some target) = _
  rw [Option.filter_some]
  simp only [decide_eq_true_eq]

/-- A maybe-reference joined with a plain fact, on either side. -/
theorem joinValues_maybe_plain (h : Plain sites size depth value)
    (sourceLocal nilTestLocal : Option ℕ) :
    (target.kind = value.kind ∧
      joinValues (maybeOf target sourceLocal nilTestLocal) value =
        joinedMaybe (joinValues target value) ∧
      joinValues value (maybeOf target sourceLocal nilTestLocal) =
        joinedMaybe (joinValues target value)) ∨
    (joinValues (maybeOf target sourceLocal nilTestLocal) value = poisonValue ∧
      joinValues value (maybeOf target sourceLocal nilTestLocal) = poisonValue) := by
  have hplain : maybeTarget value (maybeOf target sourceLocal nilTestLocal) = none :=
    maybeTarget_of_kind_ne h.kind_ne
  by_cases hkind : target.kind = value.kind
  · have hmaybe : maybeTarget (maybeOf target sourceLocal nilTestLocal) value = some target := by
      rw [maybeTarget_maybeOf, if_pos hkind]
    exact .inl ⟨hkind, joinValues_of_maybe_left hmaybe, joinValues_of_maybe_right hplain hmaybe⟩
  · have hmaybe : maybeTarget (maybeOf target sourceLocal nilTestLocal) value = none := by
      rw [maybeTarget_maybeOf, if_neg hkind]
    have hnominal : ¬NominalWithNil (maybeOf target sourceLocal nilTestLocal) value := fun hn =>
      hn.kinds.1.elim nofun nofun
    have hnominal' : ¬NominalWithNil value (maybeOf target sourceLocal nilTestLocal) := fun hn =>
      nomatch hn.kinds.2
    have hne : (maybeOf target sourceLocal nilTestLocal).kind ≠ value.kind := h.kind_ne.symm
    exact .inr ⟨joinValues_of_kind_ne hmaybe hplain hnominal hnominal' (.inl hne),
      joinValues_of_kind_ne hplain hmaybe hnominal' hnominal (.inl hne.symm)⟩

/-- Two maybe-references joined. -/
theorem joinValues_maybe_maybe {target' : AbstractValue} (ht : Plain sites size depth target)
    (ht' : Plain sites size depth target') (source test source' test' : Option ℕ) :
    joinValues (maybeOf target source test) (maybeOf target' source' test') =
      if isPoison (joinValues target target') then poisonValue
      else maybeOf (joinValues target target') (joinOrigin source source')
        (joinOrigin test test') := by
  have hmaybe : maybeTarget (maybeOf target source test) (maybeOf target' source' test') = none := by
    rw [maybeTarget_maybeOf, kind_maybeOf, if_neg ht.kind_ne]
  have hmaybe' : maybeTarget (maybeOf target' source' test') (maybeOf target source test) = none := by
    rw [maybeTarget_maybeOf, kind_maybeOf, if_neg ht'.kind_ne]
  rw [joinValues_of_kind_eq hmaybe hmaybe' rfl nofun]
  rfl

theorem Fact.join (hl : Fact sites size depth lhs) (hr : Fact sites size depth rhs) :
    Fact sites size depth (joinValues lhs rhs) := by
  have hpoison : Fact sites size depth poisonValue := .plain (plain_of_shape shape_poisonValue)
  cases hl with
  | plain hl =>
    cases hr with
    | plain hr => exact .plain (hl.join hr)
    | maybe source test hne hr hbare =>
      rcases joinValues_maybe_plain hl source test with ⟨-, -, heq⟩ | ⟨-, heq⟩
      · exact heq ▸ fact_joinedMaybe (hr.join hl)
      · exact heq ▸ hpoison
  | maybe source test hne hl hbare =>
    cases hr with
    | plain hr =>
      rcases joinValues_maybe_plain hr source test with ⟨-, heq, -⟩ | ⟨heq, -⟩
      · exact heq ▸ fact_joinedMaybe (hl.join hr)
      · exact heq ▸ hpoison
    | maybe source' test' hne' hr hbare' =>
      rw [joinValues_maybe_maybe hl hr]
      split
      · exact hpoison
      · next hjoined => exact .maybe _ _ (kind_ne_of_not_isPoison hjoined) (hl.join hr) (bare_join hbare hbare')

theorem withoutMaybe_plain (h : Plain sites size depth value) : withoutMaybe value = value :=
  if_neg h.kind_ne

/-- A fact other than poison has a rank. -/
theorem factRank_poison : factRank sites depth poisonValue = 0 := rfl

theorem factRank_join_plain (hl : Plain sites size depth lhs) (hr : Plain sites size depth rhs)
    (hclash : namesClash lhs rhs = false) :
    factRank sites depth (joinValues lhs rhs) ≤ factRank sites depth lhs ∧
      (factRank sites depth (joinValues lhs rhs) = factRank sites depth lhs →
        joinValues lhs rhs = lhs) := by
  obtain ⟨hle, -, hsame⟩ := falls_plain sites size depth lhs rhs hl hr hclash
  by_cases hkind : lhs.kind = .poison
  · have hlhs := hl.shape.poison hkind
    have hzero : plainRank sites depth lhs = 0 := by rw [hlhs]; rfl
    have hjoined : joinValues lhs rhs = lhs := hsame (by omega)
    rw [hjoined]
    exact ⟨le_rfl, fun _ => rfl⟩
  · have hrank := factRank_plain hl hkind
    by_cases hkind' : (joinValues lhs rhs).kind = .poison
    · have hjoined := (hl.join hr).shape.poison hkind'
      rw [hjoined, factRank_poison]
      exact ⟨Nat.zero_le _, fun heq => absurd heq (by omega)⟩
    · have hrank' := factRank_plain (hl.join hr) hkind'
      exact ⟨by omega, fun heq => hsame (by omega)⟩

theorem factRank_join_plain_maybe (hl : Plain sites size depth lhs)
    (ht : Plain sites size depth target) (hne : target.kind ≠ .poison) (source test : Option ℕ)
    (hclash : namesClash target lhs = false) :
    factRank sites depth (joinValues lhs (maybeOf target source test)) ≤
        factRank sites depth lhs ∧
      (factRank sites depth (joinValues lhs (maybeOf target source test)) =
        factRank sites depth lhs → joinValues lhs (maybeOf target source test) = lhs) := by
  rcases joinValues_maybe_plain hl source test with ⟨hkind, -, heq⟩ | ⟨-, heq⟩
  · rw [heq]
    obtain ⟨-, hle, -⟩ := falls_plain sites size depth target lhs ht hl hclash
    have hjoined : factRank sites depth (joinedMaybe (joinValues target lhs)) ≤
      6 * plainRank sites depth (joinValues target lhs) := (factRank_joinedMaybe _).1
    have hrank := factRank_plain hl (hkind ▸ hne)
    exact ⟨by omega, by omega⟩
  · rw [heq, factRank_poison]
    refine ⟨Nat.zero_le _, fun hzero => ?_⟩
    by_cases hkind : lhs.kind = .poison
    · exact (hl.shape.poison hkind).symm
    · have hrank := factRank_plain hl hkind
      omega

theorem factRank_join_maybe_plain (ht : Plain sites size depth target)
    (hr : Plain sites size depth rhs) (hne : target.kind ≠ .poison) (source test : Option ℕ)
    (hclash : namesClash target rhs = false) :
    factRank sites depth (joinValues (maybeOf target source test) rhs) ≤
        factRank sites depth (maybeOf target source test) ∧
      (factRank sites depth (joinValues (maybeOf target source test) rhs) =
        factRank sites depth (maybeOf target source test) →
          joinValues (maybeOf target source test) rhs = maybeOf target source test) := by
  have hrank : factRank sites depth (maybeOf target source test) =
      6 * plainRank sites depth target + (source.isSome.toNat + test.isSome.toNat) := rfl
  have hpos : 0 < plainRank sites depth target := plainRank_pos hne
  rcases joinValues_maybe_plain hr source test with ⟨hkind, heq, -⟩ | ⟨heq, -⟩
  · rw [heq]
    obtain ⟨hle, -, hsame⟩ := falls_plain sites size depth target rhs ht hr hclash
    have hjoined : factRank sites depth (joinedMaybe (joinValues target rhs)) ≤
      6 * plainRank sites depth (joinValues target rhs) := (factRank_joinedMaybe _).1
    refine ⟨by omega, fun heqRank => ?_⟩
    have htarget : joinValues target rhs = target := hsame (by omega)
    rw [htarget] at hjoined heqRank ⊢
    have htop : factRank sites depth (joinedMaybe target) = 6 * plainRank sites depth target := by
      omega
    rw [(factRank_joinedMaybe target).2 htop hne]
    have hzero : source.isSome.toNat + test.isSome.toNat = 0 := by omega
    cases source <;> cases test <;> simp at hzero
    rfl
  · rw [heq, factRank_poison]
    exact ⟨Nat.zero_le _, fun hzero => absurd hzero (by omega)⟩

theorem factRank_join_maybe_maybe {target' : AbstractValue} (ht : Plain sites size depth target)
    (ht' : Plain sites size depth target') (hne : target.kind ≠ .poison)
    (source test source' test' : Option ℕ) (hclash : namesClash target target' = false) :
    let lhs := maybeOf target source test
    let joined := joinValues lhs (maybeOf target' source' test')
    factRank sites depth joined ≤ factRank sites depth lhs ∧
      (factRank sites depth joined = factRank sites depth lhs → joined = lhs) := by
  intro lhs joined
  have hrank : factRank sites depth lhs = 6 * plainRank sites depth target +
      (source.isSome.toNat + test.isSome.toNat) := rfl
  have hpos : 0 < plainRank sites depth target := plainRank_pos hne
  have hjoined := joinValues_maybe_maybe ht ht' source test source' test'
  change joined = _ at hjoined
  rw [hjoined]
  split
  · rw [factRank_poison]
    exact ⟨Nat.zero_le _, fun hzero => absurd hzero (by omega)⟩
  · obtain ⟨hle, -, hsame⟩ := falls_plain sites size depth target target' ht ht' hclash
    have hsource := toNat_joinOrigin source source'
    have htest := toNat_joinOrigin test test'
    rw [factRank_maybe]
    refine ⟨by omega, fun heq => ?_⟩
    rw [hsame (by omega), hsource.2.2 (by omega), htest.2.2 (by omega)]

/-- Facts that do not clash fall. -/
theorem factRank_join (hl : Fact sites size depth lhs) (hr : Fact sites size depth rhs)
    (hclash : factsClash lhs rhs = false) :
    factRank sites depth (joinValues lhs rhs) ≤ factRank sites depth lhs ∧
      (factRank sites depth (joinValues lhs rhs) = factRank sites depth lhs →
        joinValues lhs rhs = lhs) := by
  unfold factsClash at hclash
  cases hl with
  | plain hl =>
    rw [withoutMaybe_plain hl] at hclash
    cases hr with
    | plain hr =>
      rw [withoutMaybe_plain hr] at hclash
      exact factRank_join_plain hl hr hclash
    | maybe source test hne hr hbare =>
      rw [withoutMaybe_maybeOf, namesClash_comm] at hclash
      exact factRank_join_plain_maybe hl hr hne source test hclash
  | maybe source test hne hl hbare =>
    rw [withoutMaybe_maybeOf] at hclash
    cases hr with
    | plain hr =>
      rw [withoutMaybe_plain hr] at hclash
      exact factRank_join_maybe_plain hl hr hne source test hclash
    | maybe source' test' hne' hr hbare' =>
      rw [withoutMaybe_maybeOf] at hclash
      exact factRank_join_maybe_maybe hl hr hne source test source' test' hclash

end Facts

/-! ## Elements of reference arrays -/

/-- Two element facts clash: an object fact meets one of another kind, and the join drops all the
object fact says. -/
def elementsClash (lhs rhs : AbstractValue) : Bool :=
  factsClash lhs rhs ||
    (lhs.kind == .object && rhs.kind != .object && decide (lhs ≠ opaqueObjectValue))

/-- A fact about the elements of a reference array: they are never nil. -/
structure ElementFact (sites size depth : ℕ) (value : AbstractValue) : Prop where
  plain : Plain sites size depth value
  nonnil : value.includesNil = false

/-- Facts of other kinds are above the object facts they may be joined to. -/
def elementRank (sites depth : ℕ) (value : AbstractValue) : ℕ :=
  if value.kind = .object ∨ value.kind = .poison then factRank sites depth value
  else factRank sites depth value + factRank sites depth opaqueObjectValue + 1

section Elements

variable {sites size depth : ℕ} {value lhs rhs : AbstractValue}

theorem shape_opaqueObjectValue {P Q : AbstractValue → Prop} :
    Shape sites size P Q opaqueObjectValue where
  plain := nofun
  poison := nofun
  objectSites := by simp [opaqueObjectValue]
  refArraySites := by simp [opaqueObjectValue]
  fields := nofun
  element := nofun
  target := nofun
  alive := nofun
  function := nofun
  map := nofun
  tidy := of_decide_eq_true rfl
  bare _ hinner := absurd hinner (not_inner rfl rfl rfl)

theorem not_nominalWithNil (h : rhs.includesNil = false) : ¬NominalWithNil lhs rhs := fun hn => by
  have hnil := hn.2
  rw [isCanonicalNilObject, h] at hnil
  simp at hnil

/-- What the join of two element facts is. -/
theorem ElementFact.joinValues_cases (hl : ElementFact sites size depth lhs)
    (hr : ElementFact sites size depth rhs) :
    joinValues lhs rhs = poisonValue ∨
      lhs.kind = rhs.kind ∧ lhs.kind ≠ .poison ∧ joinValues lhs rhs = joinSameKind lhs rhs := by
  rcases Bytecode.joinValues_cases hl.plain.kind_ne hr.plain.kind_ne with
    ⟨h, -⟩ | ⟨h, -⟩ | ⟨-, heq⟩ | h
  · exact absurd h (not_nominalWithNil hr.nonnil)
  · exact absurd h (not_nominalWithNil hl.nonnil)
  · exact .inl heq
  · exact .inr h

theorem kind_joinSameKind (lhs rhs : AbstractValue) :
    joinSameKind lhs rhs = poisonValue ∨ (joinSameKind lhs rhs).kind = lhs.kind := by
  have hite {c : Prop} [Decidable c] {joined : AbstractValue} (h : joined.kind = lhs.kind) :
      (if c then joined else poisonValue) = poisonValue ∨
        (if c then joined else poisonValue).kind = lhs.kind := by
    split
    · exact .inr h
    · exact .inl rfl
  unfold joinSameKind
  cases hkind : lhs.kind <;> simp only
  case function => exact hkind ▸ hite rfl
  case map => exact hkind ▸ hite rfl
  case ephemeron => exact hkind ▸ hite rfl
  case record => exact hkind ▸ hite rfl
  case variant => exact hkind ▸ hite rfl
  case weak =>
    split
    · split
      · exact .inl rfl
      · exact .inr hkind
    · exact .inl rfl
  case maybeReference =>
    split
    · split
      · exact .inl rfl
      · exact .inr hkind
    · exact .inl rfl
  all_goals exact .inr hkind

theorem includesNil_joinSameKind (hl : lhs.includesNil = false) (hr : rhs.includesNil = false) :
    (joinSameKind lhs rhs).includesNil = false := by
  have hor : (lhs.includesNil || rhs.includesNil) = false := by rw [hl, hr]; rfl
  unfold joinSameKind
  cases hkind : lhs.kind <;> simp only <;> repeat' split
  all_goals first | exact hl | exact hor | rfl

theorem ElementFact.join (hl : ElementFact sites size depth lhs)
    (hr : ElementFact sites size depth rhs) :
    ElementFact sites size depth (joinRefArrayElementValues lhs rhs) := by
  have hplain : ElementFact sites size depth (joinValues lhs rhs) := by
    refine ⟨hl.plain.join hr.plain, ?_⟩
    rcases hl.joinValues_cases hr with heq | ⟨-, -, heq⟩
    · rw [heq]
      rfl
    · rw [heq]
      exact includesNil_joinSameKind hl.nonnil hr.nonnil
  unfold joinRefArrayElementValues
  dsimp only
  split
  · exact hplain
  · split
    · exact hplain
    · split
      · exact ⟨plain_of_shape shape_opaqueObjectValue, rfl⟩
      · exact hplain

theorem elementRank_poison : elementRank sites depth poisonValue = 0 := rfl

theorem elementRank_opaqueObject : elementRank sites depth opaqueObjectValue =
    factRank sites depth opaqueObjectValue := rfl

theorem elementRank_eq_zero (hl : ElementFact sites size depth lhs)
    (hzero : elementRank sites depth lhs = 0) : lhs = poisonValue := by
  by_cases hkind : lhs.kind = .poison
  · exact hl.plain.shape.poison hkind
  · have hrank : factRank sites depth lhs = 6 * plainRank sites depth lhs + 3 :=
      factRank_plain hl.plain hkind
    unfold elementRank at hzero
    split at hzero <;> omega

/-- Element facts that have no common fact are joined to the opaque object, or to poison. -/
theorem elementRank_join_of_poison (hl : ElementFact sites size depth lhs)
    (hr : ElementFact sites size depth rhs) (hjoined : joinValues lhs rhs = poisonValue)
    (hclash : lhs.kind = .object → rhs.kind ≠ .object → lhs = opaqueObjectValue) :
    elementRank sites depth (joinRefArrayElementValues lhs rhs) ≤ elementRank sites depth lhs ∧
      (elementRank sites depth (joinRefArrayElementValues lhs rhs) = elementRank sites depth lhs →
        joinRefArrayElementValues lhs rhs = lhs) := by
  have hpoison : elementRank sites depth poisonValue ≤ elementRank sites depth lhs ∧
      (elementRank sites depth poisonValue = elementRank sites depth lhs → poisonValue = lhs) :=
    ⟨Nat.zero_le _, fun hzero => (elementRank_eq_zero hl hzero.symm).symm⟩
  unfold joinRefArrayElementValues
  rw [hjoined]
  show elementRank sites depth (if lhs.kind = .function ∨ rhs.kind = .function then poisonValue
    else if isReferenceKind lhs.kind && isReferenceKind rhs.kind then opaqueObjectValue
    else poisonValue) ≤ _ ∧ (elementRank sites depth (if lhs.kind = .function ∨
      rhs.kind = .function then poisonValue
    else if isReferenceKind lhs.kind && isReferenceKind rhs.kind then opaqueObjectValue
    else poisonValue) = _ → (if lhs.kind = .function ∨ rhs.kind = .function then poisonValue
    else if isReferenceKind lhs.kind && isReferenceKind rhs.kind then opaqueObjectValue
    else poisonValue) = lhs)
  split
  · exact hpoison
  · split
    case isFalse => exact hpoison
    case isTrue hkinds =>
      rw [Bool.and_eq_true] at hkinds
      by_cases hobject : lhs.kind = .object
      · -- two objects have a join that is no poison
        have hother : rhs.kind ≠ .object := by
          intro hsame
          have hplain := joinValues_of_kind_eq (maybeTarget_of_kind_ne hl.plain.kind_ne)
            (maybeTarget_of_kind_ne hr.plain.kind_ne) (hobject.trans hsame.symm)
            (by rw [hobject]; exact nofun)
          rw [hjoined, joinSameKind, hobject] at hplain
          have hkind := congrArg AbstractValue.kind hplain
          change AbstractKind.poison = lhs.kind at hkind
          rw [hobject] at hkind
          exact nomatch hkind
        rw [← hclash hobject hother]
        exact ⟨le_rfl, fun _ => rfl⟩
      · have hne : lhs.kind ≠ .poison := fun hkind => by
          rw [hkind] at hkinds
          exact nomatch hkinds.1
        have hrank : elementRank sites depth lhs =
            factRank sites depth lhs + factRank sites depth opaqueObjectValue + 1 :=
          if_neg (not_or.mpr ⟨hobject, hne⟩)
        rw [elementRank_opaqueObject, hrank]
        exact ⟨by omega, by omega⟩

/-- Element facts that do not clash fall. -/
theorem elementRank_join (hl : ElementFact sites size depth lhs)
    (hr : ElementFact sites size depth rhs) (hclash : elementsClash lhs rhs = false) :
    elementRank sites depth (joinRefArrayElementValues lhs rhs) ≤ elementRank sites depth lhs ∧
      (elementRank sites depth (joinRefArrayElementValues lhs rhs) = elementRank sites depth lhs →
        joinRefArrayElementValues lhs rhs = lhs) := by
  rw [elementsClash, Bool.or_eq_false_iff, factsClash, withoutMaybe_plain hl.plain,
    withoutMaybe_plain hr.plain] at hclash
  obtain ⟨hnames, hobject⟩ := hclash
  have hbare : lhs.kind = .object → rhs.kind ≠ .object → lhs = opaqueObjectValue := by
    intro hlhs hrhs
    simpa [hlhs, hrhs] using hobject
  rcases hl.joinValues_cases hr with heq | ⟨-, hne, heq⟩
  · exact elementRank_join_of_poison hl hr heq hbare
  · rcases kind_joinSameKind lhs rhs with hpoison | hkind
    · exact elementRank_join_of_poison hl hr (heq.trans hpoison) hbare
    · rw [← heq] at hkind
      have hsame : joinRefArrayElementValues lhs rhs = joinValues lhs rhs := by
        have hnot : isPoison (joinValues lhs rhs) = false := by
          rw [isPoison, hkind]
          exact beq_eq_false_iff_ne.mpr hne
        rw [joinRefArrayElementValues, hnot]
        rfl
      have hfalls := factRank_join_plain hl.plain hr.plain hnames
      rw [hsame]
      unfold elementRank
      rw [hkind]
      split
      · exact hfalls
      · exact ⟨by omega, fun heqRank => hfalls.2 (by omega)⟩

end Elements

end LanguageRuntime.Bytecode
