import LanguageRuntime.Bytecode.JoinTheorems

/-!
# The rank of a fact

A join only loses knowledge, except where two different named types meet. Without such a clash
the rank of a fact, a number, falls whenever the join changes the fact, so a program point can
change only so often.
-/

namespace LanguageRuntime.Bytecode

/-! ## Clashes -/

mutual

/-- Two facts of one kind name different types, or the facts they consist of do. The join drops
both names. -/
def namesClash : AbstractValue → AbstractValue → Bool
  | ⟨kind, _, _, _, _, fields, element, _, _, target, named, _, _, _, _⟩, rhs =>
    kind == rhs.kind &&
      ((named.isSome && rhs.signatureNamedType.isSome && named != rhs.signatureNamedType) ||
        fieldsClash fields rhs.signatureFields ||
        pointersClash element rhs.signatureArrayElement ||
        pointersClash target rhs.referenceTarget)

def fieldsClash : Option (Fields AbstractValue) → Option (Fields AbstractValue) → Bool
  | some ⟨left, right⟩, some rhs => namesClash left rhs.left || namesClash right rhs.right
  | _, _ => false

def pointersClash : Option AbstractValue → Option AbstractValue → Bool
  | some lhs, some rhs => namesClash lhs rhs
  | _, _ => false

end

/-- What a maybe-reference is when it is not nil. -/
def withoutMaybe (value : AbstractValue) : AbstractValue :=
  if value.kind = .maybeReference then value.referenceTarget.getD value else value

/-- Two facts of one place clash. -/
def factsClash (lhs rhs : AbstractValue) : Bool := namesClash (withoutMaybe lhs) (withoutMaybe rhs)

section Clash

variable {lhs rhs : AbstractValue}

theorem namesClash_eq (lhs rhs : AbstractValue) : namesClash lhs rhs =
    (lhs.kind == rhs.kind &&
      ((lhs.signatureNamedType.isSome && rhs.signatureNamedType.isSome &&
          lhs.signatureNamedType != rhs.signatureNamedType) ||
        fieldsClash lhs.signatureFields rhs.signatureFields ||
        pointersClash lhs.signatureArrayElement rhs.signatureArrayElement ||
        pointersClash lhs.referenceTarget rhs.referenceTarget)) := by
  cases lhs
  rw [namesClash]

theorem fieldsClash_some (lhs rhs : PairFields) : fieldsClash (some lhs) (some rhs) =
    (namesClash lhs.left rhs.left || namesClash lhs.right rhs.right) := by
  cases lhs
  rw [fieldsClash]

theorem pointersClash_some (lhs rhs : AbstractValue) :
    pointersClash (some lhs) (some rhs) = namesClash lhs rhs := by
  rw [pointersClash]

mutual

theorem namesClash_comm : ∀ lhs rhs : AbstractValue, namesClash lhs rhs = namesClash rhs lhs
  | ⟨kind, _, _, _, _, fields, element, _, _, target, named, _, _, _, _⟩,
    ⟨kind', _, _, _, _, fields', element', _, _, target', named', _, _, _, _⟩ => by
    have hfields := fieldsClash_comm fields fields'
    have helement := pointersClash_comm element element'
    have htarget := pointersClash_comm target target'
    have hnamed : (named.isSome && named'.isSome && named != named') =
        (named'.isSome && named.isSome && named' != named) := by
      rw [Bool.and_comm named.isSome, bne_comm]
    simp only [namesClash, hfields, helement, htarget, hnamed, BEq.comm]

theorem fieldsClash_comm : ∀ lhs rhs : Option (Fields AbstractValue),
    fieldsClash lhs rhs = fieldsClash rhs lhs
  | some ⟨left, right⟩, some ⟨left', right'⟩ => by
    have hleft := namesClash_comm left left'
    have hright := namesClash_comm right right'
    simp only [fieldsClash, hleft, hright]
  | none, none => rfl
  | some ⟨_, _⟩, none => by simp only [fieldsClash]
  | none, some ⟨_, _⟩ => by simp only [fieldsClash]

theorem pointersClash_comm : ∀ lhs rhs : Option AbstractValue,
    pointersClash lhs rhs = pointersClash rhs lhs
  | some lhs, some rhs => by
    have hvalue := namesClash_comm lhs rhs
    simp only [pointersClash, hvalue]
  | none, none => rfl
  | some _, none => by simp only [pointersClash]
  | none, some _ => by simp only [pointersClash]

end

/-- What it means that two facts of one kind do not clash. -/
structure Compatible (lhs rhs : AbstractValue) : Prop where
  named : ∀ m n, lhs.signatureNamedType = some m → rhs.signatureNamedType = some n → m = n
  fields : ∀ f g, lhs.signatureFields = some f → rhs.signatureFields = some g →
    namesClash f.left g.left = false ∧ namesClash f.right g.right = false
  element : ∀ e e', lhs.signatureArrayElement = some e → rhs.signatureArrayElement = some e' →
    namesClash e e' = false
  target : ∀ t t', lhs.referenceTarget = some t → rhs.referenceTarget = some t' →
    namesClash t t' = false

theorem compatible_of_not_namesClash (h : namesClash lhs rhs = false) (hkind : lhs.kind = rhs.kind) :
    Compatible lhs rhs := by
  rw [namesClash_eq, hkind, beq_self_eq_true, Bool.true_and, Bool.or_eq_false_iff,
    Bool.or_eq_false_iff, Bool.or_eq_false_iff] at h
  obtain ⟨⟨⟨hnamed, hfields⟩, helement⟩, htarget⟩ := h
  refine ⟨fun m n hm hn => ?_, fun f g hf hg => ?_, fun e e' he he' => ?_, fun t t' ht ht' => ?_⟩
  · rw [hm, hn] at hnamed
    simpa using hnamed
  · rw [hf, hg, fieldsClash_some, Bool.or_eq_false_iff] at hfields
    exact hfields
  · rw [he, he', pointersClash_some] at helement
    exact helement
  · rw [ht, ht', pointersClash_some] at htarget
    exact htarget

end Clash

/-! ## Shapes -/

theorem kind_ne_of_not_isPoison {value : AbstractValue} (h : ¬isPoison value = true) :
    value.kind ≠ .poison := fun hkind => h (by rw [isPoison, hkind]; rfl)

/-- A value has only the components that its kind uses. -/
structure Tidy (value : AbstractValue) : Prop where
  object : value.kind ≠ .object → value.objectSites = ∅ ∧ value.includesOpaqueObject = false ∧
    value.signatureFields = none ∧ value.signatureNamedType = none
  nil : value.kind ≠ .object → value.kind ≠ .record → value.kind ≠ .variant →
    value.includesNil = false
  array : value.kind ≠ .refArray → value.refArraySites = ∅ ∧ value.signatureArrayElement = none
  function : value.kind ≠ .function → value.signatureFunction = none
  map : value.kind ≠ .map → value.kind ≠ .ephemeron → value.signatureMap = none
  target : value.kind ≠ .weak → value.kind ≠ .maybeReference → value.referenceTarget = none
  record : value.kind ≠ .record → value.signatureRecordLayout = none
  variant : value.kind ≠ .variant → value.signatureVariantLayout = none

instance (value : AbstractValue) : Decidable (Tidy value) :=
  decidable_of_iff
    ((value.kind ≠ .object → value.objectSites = ∅ ∧ value.includesOpaqueObject = false ∧
        value.signatureFields = none ∧ value.signatureNamedType = none) ∧
      (value.kind ≠ .object → value.kind ≠ .record → value.kind ≠ .variant →
        value.includesNil = false) ∧
      (value.kind ≠ .refArray → value.refArraySites = ∅ ∧ value.signatureArrayElement = none) ∧
      (value.kind ≠ .function → value.signatureFunction = none) ∧
      (value.kind ≠ .map → value.kind ≠ .ephemeron → value.signatureMap = none) ∧
      (value.kind ≠ .weak → value.kind ≠ .maybeReference → value.referenceTarget = none) ∧
      (value.kind ≠ .record → value.signatureRecordLayout = none) ∧
      (value.kind ≠ .variant → value.signatureVariantLayout = none))
    ⟨fun ⟨object, nil, array, function, map, target, record, variant⟩ =>
        ⟨object, nil, array, function, map, target, record, variant⟩,
      fun h => ⟨h.object, h.nil, h.array, h.function, h.map, h.target, h.record, h.variant⟩⟩

/-- What the pointers of a value lead to. -/
def Inner (value inner : AbstractValue) : Prop :=
  (∃ f, value.signatureFields = some f ∧ (inner = f.left ∨ inner = f.right)) ∨
    value.signatureArrayElement = some inner ∨ value.referenceTarget = some inner

/-- A value without origins. -/
def Bare (value : AbstractValue) : Prop := value.sourceLocal = none ∧ value.nilTestLocal = none

/-- A value that is no maybe-reference, with sites below `sites`, signatures no larger than
`size`, contents in `P` and a target in `Q`. -/
structure Shape (sites size : ℕ) (P Q : AbstractValue → Prop) (value : AbstractValue) : Prop where
  plain : value.kind ≠ .maybeReference
  poison : value.kind = .poison → value = poisonValue
  objectSites : ∀ site ∈ value.objectSites, site < sites
  refArraySites : ∀ site ∈ value.refArraySites, site < sites
  fields : ∀ f, value.signatureFields = some f → P f.left ∧ P f.right
  element : ∀ e, value.signatureArrayElement = some e → P e
  target : ∀ t, value.referenceTarget = some t → Q t
  alive : ∀ t, value.referenceTarget = some t → t.kind ≠ .poison
  function : ∀ s, value.signatureFunction = some s → sizeOf s ≤ size
  map : ∀ s, value.signatureMap = some s → sizeOf s ≤ size
  tidy : Tidy value
  bare : ∀ inner, Inner value inner → Bare inner

section Shape

variable {sites size : ℕ} {P Q P' Q' : AbstractValue → Prop} {value lhs rhs : AbstractValue}

theorem Shape.mono (h : Shape sites size P Q value) (hP : ∀ v, P v → P' v) (hQ : ∀ v, Q v → Q' v) :
    Shape sites size P' Q' value where
  plain := h.plain
  poison := h.poison
  objectSites := h.objectSites
  refArraySites := h.refArraySites
  fields f hf := ⟨hP _ (h.fields f hf).1, hP _ (h.fields f hf).2⟩
  element e he := hP _ (h.element e he)
  target t ht := hQ _ (h.target t ht)
  alive := h.alive
  function := h.function
  map := h.map
  tidy := h.tidy
  bare := h.bare

theorem not_inner {inner : AbstractValue} (hfields : value.signatureFields = none)
    (helement : value.signatureArrayElement = none) (htarget : value.referenceTarget = none) :
    ¬Inner value inner := by
  simp [Inner, hfields, helement, htarget]

theorem shape_poisonValue : Shape sites size P Q poisonValue where
  plain := nofun
  poison _ := rfl
  objectSites := by simp [poisonValue, valueWithKind]
  refArraySites := by simp [poisonValue, valueWithKind]
  fields := nofun
  element := nofun
  target := nofun
  alive := nofun
  function := nofun
  map := nofun
  tidy := of_decide_eq_true rfl
  bare _ hinner := absurd hinner (not_inner rfl rfl rfl)

/-- The nil flag, of a value that may have one, and the origins of a value play no part in its
shape. -/
theorem Shape.withFlags (h : Shape sites size P Q value) (hkind : value.kind ≠ .poison)
    {includesNil : Bool} (hnil : value.kind ≠ .object → value.kind ≠ .record →
      value.kind ≠ .variant → includesNil = false) (sourceLocal nilTestLocal : Option ℕ) :
    Shape sites size P Q { value with
      includesNil := includesNil
      sourceLocal := sourceLocal
      nilTestLocal := nilTestLocal } where
  plain := h.plain
  poison hpoison := absurd hpoison hkind
  objectSites := h.objectSites
  refArraySites := h.refArraySites
  fields := h.fields
  element := h.element
  target := h.target
  alive := h.alive
  function := h.function
  map := h.map
  tidy := { h.tidy with nil := hnil }
  bare := h.bare

theorem bare_poisonValue : Bare poisonValue := ⟨rfl, rfl⟩

theorem bare_joinedMaybe (value : AbstractValue) : Bare (joinedMaybe value) := by
  unfold joinedMaybe
  split
  · exact bare_poisonValue
  · exact ⟨rfl, rfl⟩

theorem joinOrigin_none {origin origin' : Option ℕ} (h : origin = none) (h' : origin' = none) :
    joinOrigin origin origin' = none := by
  rw [h, h']
  rfl

/-- The origins of a join come from the origins of its sides. -/
theorem bare_joinSameKind (hl : Bare lhs) (hr : Bare rhs) : Bare (joinSameKind lhs rhs) := by
  have horigins : Bare (withJoinedOrigins lhs rhs) :=
    ⟨joinOrigin_none hl.1 hr.1, joinOrigin_none hl.2 hr.2⟩
  unfold joinSameKind
  cases lhs.kind <;> simp only <;> repeat' split
  all_goals first | exact horigins | exact bare_poisonValue

theorem bare_join (hl : Bare lhs) (hr : Bare rhs) : Bare (joinValues lhs rhs) := by
  cases hleft : maybeTarget lhs rhs with
  | some target =>
    rw [joinValues_of_maybe_left hleft]
    exact bare_joinedMaybe _
  | none =>
    cases hright : maybeTarget rhs lhs with
    | some target =>
      rw [joinValues_of_maybe_right hleft hright]
      exact bare_joinedMaybe _
    | none =>
      by_cases hnominal : NominalWithNil lhs rhs
      · rw [joinValues_of_nominal_left hnominal]
        exact ⟨joinOrigin_none hl.1 hr.1, joinOrigin_none hl.2 hr.2⟩
      by_cases hnominal' : NominalWithNil rhs lhs
      · rw [joinValues_of_nominal_right hnominal']
        exact ⟨joinOrigin_none hr.1 hl.1, joinOrigin_none hr.2 hl.2⟩
      by_cases hkind : lhs.kind ≠ rhs.kind ∨ isPoison lhs ∨ isPoison rhs
      · rw [joinValues_of_kind_ne hleft hright hnominal hnominal' hkind]
        exact bare_poisonValue
      · rw [not_or, not_not, not_or] at hkind
        rw [joinValues_of_kind_eq hleft hright hkind.1 (kind_ne_of_not_isPoison hkind.2.1)]
        exact bare_joinSameKind hl hr

theorem Shape.withJoinedOrigins (h : Shape sites size P Q lhs) (hkind : lhs.kind ≠ .poison)
    (rhs : AbstractValue) : Shape sites size P Q (withJoinedOrigins lhs rhs) :=
  h.withFlags hkind h.tidy.nil _ _

theorem joinPointers_cases {α : Type} {join : α → α → α} {lhs rhs : Option α} {joined : α}
    (h : joinPointers join lhs rhs = some joined) :
    lhs = some joined ∨ rhs = some joined ∨
      ∃ left right, lhs = some left ∧ rhs = some right ∧ joined = join left right := by
  cases lhs with
  | none => exact .inr (.inl h)
  | some left =>
    cases rhs with
    | none => exact .inl h
    | some right => exact .inr (.inr ⟨left, right, rfl, rfl, (Option.some.inj h).symm⟩)

/-- A join keeps the shape, when joins keep that of the contents and of the targets. -/
theorem Shape.joinSameKind (hl : Shape sites size P Q lhs) (hr : Shape sites size P Q rhs)
    (hkind : lhs.kind ≠ .poison) (hP : ∀ a b, P a → P b → P (joinValues a b))
    (hQ : ∀ a b, Q a → Q b → Q (joinValues a b)) :
    Shape sites size P Q (joinSameKind lhs rhs) := by
  have horigins := hl.withJoinedOrigins hkind rhs
  have hunion {s t : Finset ℕ} (hs : ∀ site ∈ s, site < sites) (ht : ∀ site ∈ t, site < sites) :
      ∀ site ∈ s ∪ t, site < sites := fun site hsite =>
    (Finset.mem_union.mp hsite).elim (hs site) (ht site)
  have hite {c : Prop} [Decidable c] {joined : AbstractValue}
      (hjoined : Shape sites size P Q joined) :
      Shape sites size P Q (if c then joined else poisonValue) := by
    split
    · exact hjoined
    · exact shape_poisonValue
  have htarget : Shape sites size P Q (match lhs.referenceTarget, rhs.referenceTarget with
      | some left, some right =>
        if isPoison (joinValues left right) then poisonValue
        else { Bytecode.withJoinedOrigins lhs rhs with
          referenceTarget := some (joinValues left right) }
      | _, _ => poisonValue) := by
    split
    · next left right hleft hright =>
      split
      · exact shape_poisonValue
      · next hjoined =>
        exact { horigins with
          poison := fun hpoison => absurd hpoison hkind
          target := fun t ht => by
            cases ht
            exact hQ _ _ (hl.target _ hleft) (hr.target _ hright)
          alive := fun t ht => by
            cases ht
            exact kind_ne_of_not_isPoison hjoined
          tidy := { horigins.tidy with
            target := fun hweak hmaybe => absurd (hl.tidy.target hweak hmaybe) (by simp [hleft]) }
          bare := fun inner hinner => by
            rcases hinner with h | h | h
            · exact hl.bare inner (.inl h)
            · exact hl.bare inner (.inr (.inl h))
            · cases h
              exact bare_join (hl.bare _ (.inr (.inr hleft))) (hr.bare _ (.inr (.inr hright))) }
    · exact shape_poisonValue
  unfold Bytecode.joinSameKind
  cases hlhs : lhs.kind <;> simp only
  case object =>
    exact { horigins with
      poison := fun hpoison => absurd hpoison hkind
      objectSites := hunion hl.objectSites hr.objectSites
      fields := fun f hf => by
        rcases joinPointers_cases hf with h | h | ⟨left, right, hleft, hright, rfl⟩
        · exact hl.fields f h
        · exact hr.fields f h
        · exact ⟨hP _ _ (hl.fields _ hleft).1 (hr.fields _ hright).1,
            hP _ _ (hl.fields _ hleft).2 (hr.fields _ hright).2⟩
      tidy := { horigins.tidy with
        object := fun h => absurd hlhs h
        nil := fun h => absurd hlhs h }
      bare := fun inner hinner => by
        rcases hinner with ⟨f, hf, hinner⟩ | h | h
        · rcases joinPointers_cases hf with h | h | ⟨left, right, hleft, hright, rfl⟩
          · exact hl.bare inner (.inl ⟨f, h, hinner⟩)
          · exact hr.bare inner (.inl ⟨f, h, hinner⟩)
          · rcases hinner with rfl | rfl
            · exact bare_join (hl.bare _ (.inl ⟨left, hleft, .inl rfl⟩))
                (hr.bare _ (.inl ⟨right, hright, .inl rfl⟩))
            · exact bare_join (hl.bare _ (.inl ⟨left, hleft, .inr rfl⟩))
                (hr.bare _ (.inl ⟨right, hright, .inr rfl⟩))
        · exact hl.bare inner (.inr (.inl h))
        · exact hl.bare inner (.inr (.inr h)) }
  case refArray =>
    exact { horigins with
      poison := fun hpoison => absurd hpoison hkind
      refArraySites := hunion hl.refArraySites hr.refArraySites
      element := fun e he => by
        rcases joinPointers_cases he with h | h | ⟨left, right, hleft, hright, rfl⟩
        · exact hl.element e h
        · exact hr.element e h
        · exact hP _ _ (hl.element _ hleft) (hr.element _ hright)
      tidy := { horigins.tidy with array := fun h => absurd hlhs h }
      bare := fun inner hinner => by
        rcases hinner with h | h | h
        · exact hl.bare inner (.inl h)
        · rcases joinPointers_cases h with h | h | ⟨left, right, hleft, hright, rfl⟩
          · exact hl.bare inner (.inr (.inl h))
          · exact hr.bare inner (.inr (.inl h))
          · exact bare_join (hl.bare _ (.inr (.inl hleft))) (hr.bare _ (.inr (.inl hright)))
        · exact hl.bare inner (.inr (.inr h)) }
  case function => exact hite horigins
  case map => exact hite horigins
  case ephemeron => exact hite horigins
  case record => exact hite (horigins.withFlags hkind (fun _ h => absurd hlhs h) _ _)
  case variant => exact hite (horigins.withFlags hkind (fun _ _ h => absurd hlhs h) _ _)
  case weak => exact htarget
  case maybeReference => exact htarget
  all_goals exact horigins

theorem Shape.join (hl : Shape sites size P Q lhs) (hr : Shape sites size P Q rhs)
    (hP : ∀ a b, P a → P b → P (joinValues a b)) (hQ : ∀ a b, Q a → Q b → Q (joinValues a b)) :
    Shape sites size P Q (joinValues lhs rhs) := by
  have hnominal {nominal nil : AbstractValue} (h : NominalWithNil nominal nil)
      (hshape : Shape sites size P Q nominal) :
      Shape sites size P Q (joinNominalWithNil nominal nil) :=
    hshape.withFlags (by rcases h.1 with h | h <;> simp [h])
      (fun _ hrecord hvariant => absurd h.1 (not_or.mpr ⟨hrecord, hvariant⟩)) _ _
  rcases joinValues_cases hl.plain hr.plain with ⟨h, heq⟩ | ⟨h, heq⟩ | ⟨-, heq⟩ | ⟨-, hkind, heq⟩
  · exact heq ▸ hnominal h hl
  · exact heq ▸ hnominal h hr
  · exact heq ▸ shape_poisonValue
  · exact heq ▸ hl.joinSameKind hr hkind hP hQ

end Shape

/-! ## Ranks -/

/-- How many of the two origins a value has. -/
def originRank (value : AbstractValue) : ℕ :=
  value.sourceLocal.isSome.toNat + value.nilTestLocal.isSome.toNat

/-- The rank of a value with contents and a target of the given ranks; `roof` is the rank of
contents that are not known yet. -/
def shapeRank (sites roof : ℕ) (inner : AbstractValue → ℕ) (target : ℕ) (value : AbstractValue) :
    ℕ :=
  match value.kind with
  | .poison => 0
  | .object =>
    2 + (sites - value.objectSites.card) + (!value.includesOpaqueObject).toNat +
      (!value.includesNil).toNat + value.signatureNamedType.isNone.toNat +
      value.signatureFields.elim roof (fun f => inner f.left + inner f.right) + originRank value
  | .refArray =>
    1 + (sites - value.refArraySites.card) + value.signatureArrayElement.elim roof inner +
      originRank value
  | .weak => 1 + target + originRank value
  | .record => 1 + (!value.includesNil).toNat + originRank value
  | .variant => 1 + (!value.includesNil).toNat + originRank value
  | _ => 1 + originRank value

/-- The joins of values in `P` that do not clash have no higher rank than either value, and a
lower one than the left value when they differ from it. -/
def Falls (P : AbstractValue → Prop) (rank : AbstractValue → ℕ) : Prop :=
  ∀ lhs rhs, P lhs → P rhs → namesClash lhs rhs = false →
    rank (joinValues lhs rhs) ≤ rank lhs ∧ rank (joinValues lhs rhs) ≤ rank rhs ∧
      (rank (joinValues lhs rhs) = rank lhs → joinValues lhs rhs = lhs)

section Components

/-- The parts of a value that stay with a join of two values of one kind, as far as the rank
knows them. -/
theorem toNat_joinOrigin (lhs rhs : Option ℕ) :
    (joinOrigin lhs rhs).isSome.toNat ≤ lhs.isSome.toNat ∧
      (joinOrigin lhs rhs).isSome.toNat ≤ rhs.isSome.toNat ∧
      ((joinOrigin lhs rhs).isSome.toNat = lhs.isSome.toNat → joinOrigin lhs rhs = lhs) := by
  unfold joinOrigin
  split
  case isTrue heq => simp [heq]
  case isFalse hne => cases lhs <;> simp

theorem toNat_not_or (lhs rhs : Bool) :
    (!(lhs || rhs)).toNat ≤ (!lhs).toNat ∧ (!(lhs || rhs)).toNat ≤ (!rhs).toNat ∧
      ((!(lhs || rhs)).toNat = (!lhs).toNat → (lhs || rhs) = lhs) := by
  cases lhs <;> cases rhs <;> decide

theorem toNat_joinNamedType {lhs rhs : Option ℕ}
    (h : ∀ m n, lhs = some m → rhs = some n → m = n) :
    (joinNamedType lhs rhs).isNone.toNat ≤ lhs.isNone.toNat ∧
      (joinNamedType lhs rhs).isNone.toNat ≤ rhs.isNone.toNat ∧
      ((joinNamedType lhs rhs).isNone.toNat = lhs.isNone.toNat → joinNamedType lhs rhs = lhs) := by
  unfold joinNamedType
  cases lhs with
  | none => cases rhs <;> simp
  | some m =>
    cases rhs with
    | none => simp
    | some n =>
      have heq := h m n rfl rfl
      simp [heq]

theorem sub_card_union {sites : ℕ} {s t : Finset ℕ} (hs : ∀ site ∈ s, site < sites)
    (ht : ∀ site ∈ t, site < sites) :
    sites - (s ∪ t).card ≤ sites - s.card ∧ sites - (s ∪ t).card ≤ sites - t.card ∧
      (sites - (s ∪ t).card = sites - s.card → s ∪ t = s) := by
  have hleft : s.card ≤ (s ∪ t).card := Finset.card_le_card Finset.subset_union_left
  have hright : t.card ≤ (s ∪ t).card := Finset.card_le_card Finset.subset_union_right
  have hrange : s ∪ t ⊆ Finset.range sites := by
    intro site hsite
    rw [Finset.mem_range]
    exact (Finset.mem_union.mp hsite).elim (hs site) (ht site)
  have hcard := Finset.card_le_card hrange
  rw [Finset.card_range] at hcard
  refine ⟨by omega, by omega, fun heq => ?_⟩
  exact (Finset.eq_of_subset_of_card_le Finset.subset_union_left (by omega)).symm

/-- A sum whose terms do not rise does not rise, and stays only when they all do. -/
theorem sum_falls {a b c d e f a' b' c' d' e' f' : ℕ} (ha : a' ≤ a) (hb : b' ≤ b) (hc : c' ≤ c)
    (hd : d' ≤ d) (he : e' ≤ e) (hf : f' ≤ f) :
    2 + a' + b' + c' + d' + e' + f' ≤ 2 + a + b + c + d + e + f ∧
      (2 + a' + b' + c' + d' + e' + f' = 2 + a + b + c + d + e + f →
        a' = a ∧ b' = b ∧ c' = c ∧ d' = d ∧ e' = e ∧ f' = f) := by
  omega

theorem elim_joinPointers {α : Type} {join : α → α → α} {rank : α → ℕ} {roof : ℕ}
    (hroof : ∀ a, rank a < roof) {lhs rhs : Option α}
    (h : ∀ a b, lhs = some a → rhs = some b → rank (join a b) ≤ rank a ∧
      rank (join a b) ≤ rank b ∧ (rank (join a b) = rank a → join a b = a)) :
    (joinPointers join lhs rhs).elim roof rank ≤ lhs.elim roof rank ∧
      (joinPointers join lhs rhs).elim roof rank ≤ rhs.elim roof rank ∧
      ((joinPointers join lhs rhs).elim roof rank = lhs.elim roof rank →
        joinPointers join lhs rhs = lhs) := by
  cases lhs with
  | none =>
    cases rhs with
    | none => exact ⟨le_rfl, le_rfl, fun _ => rfl⟩
    | some b =>
      have hb := hroof b
      exact ⟨hb.le, le_rfl, fun heq => absurd heq hb.ne⟩
  | some a =>
    cases rhs with
    | none => exact ⟨le_rfl, (hroof a).le, fun _ => rfl⟩
    | some b =>
      obtain ⟨hleft, hright, hsame⟩ := h a b rfl rfl
      exact ⟨hleft, hright, fun heq => congrArg some (hsame heq)⟩

end Components

section Falls

variable {sites size roof : ℕ} {P Q : AbstractValue → Prop} {inner target : AbstractValue → ℕ}
  {lhs rhs : AbstractValue}

theorem originRank_join (lhs rhs : AbstractValue) :
    originRank (withJoinedOrigins lhs rhs) ≤ originRank lhs ∧
      originRank (withJoinedOrigins lhs rhs) ≤ originRank rhs ∧
      (originRank (withJoinedOrigins lhs rhs) = originRank lhs →
        withJoinedOrigins lhs rhs = lhs) := by
  have hsource := toNat_joinOrigin lhs.sourceLocal rhs.sourceLocal
  have htest := toNat_joinOrigin lhs.nilTestLocal rhs.nilTestLocal
  unfold originRank withJoinedOrigins
  refine ⟨by dsimp only; omega, by dsimp only; omega, fun heq => ?_⟩
  dsimp only at heq
  rw [hsource.2.2 (by omega), htest.2.2 (by omega)]
  cases lhs
  rfl

/-- What `Falls` says of one joined value. -/
def FallsTo (rank : AbstractValue → ℕ) (lhs rhs joined : AbstractValue) : Prop :=
  rank joined ≤ rank lhs ∧ rank joined ≤ rank rhs ∧ (rank joined = rank lhs → joined = lhs)

theorem FallsTo.or_poison {rank : AbstractValue → ℕ} {joined : AbstractValue} {c : Prop} [Decidable c]
    (h : FallsTo rank lhs rhs joined) (hpoison : rank poisonValue = 0) (hlhs : 0 < rank lhs) :
    FallsTo rank lhs rhs (if c then joined else poisonValue) := by
  split
  · exact h
  · exact ⟨by omega, by omega, by omega⟩

section SameKind

variable {rank : AbstractValue → ℕ}

theorem fallsTo_origins (hkind : lhs.kind = rhs.kind)
    (hrank : ∀ v, v.kind = lhs.kind → rank v = 1 + originRank v) :
    FallsTo rank lhs rhs (withJoinedOrigins lhs rhs) := by
  have horigins := originRank_join lhs rhs
  have hjoined := hrank (withJoinedOrigins lhs rhs) rfl
  have hleft := hrank lhs rfl
  have hright := hrank rhs hkind.symm
  exact ⟨by omega, by omega, fun heq => horigins.2.2 (by omega)⟩

theorem fallsTo_nominal (hkind : lhs.kind = rhs.kind)
    (hrank : ∀ v, v.kind = lhs.kind → rank v = 1 + (!v.includesNil).toNat + originRank v) :
    FallsTo rank lhs rhs
      { withJoinedOrigins lhs rhs with includesNil := lhs.includesNil || rhs.includesNil } := by
  have horigins := originRank_join lhs rhs
  have hnil := toNat_not_or lhs.includesNil rhs.includesNil
  have hleft := hrank lhs rfl
  have hright := hrank rhs hkind.symm
  generalize hjoined : ({ withJoinedOrigins lhs rhs with
    includesNil := lhs.includesNil || rhs.includesNil } : AbstractValue) = joined
  have hkind' : joined.kind = lhs.kind := by rw [← hjoined]; rfl
  have hnil' : joined.includesNil = (lhs.includesNil || rhs.includesNil) := by rw [← hjoined]
  have horigins' : originRank joined = originRank (withJoinedOrigins lhs rhs) := by
    rw [← hjoined]; rfl
  have hrankJoined := hrank joined hkind'
  rw [hnil', horigins'] at hrankJoined
  refine ⟨by omega, by omega, fun heq => ?_⟩
  rw [← hjoined, hnil.2.2 (by omega), horigins.2.2 (by omega)]
  cases lhs
  rfl

theorem fallsTo_object (hl : Shape sites size P Q lhs) (hr : Shape sites size P Q rhs)
    (hkind : lhs.kind = rhs.kind) (hcompatible : Compatible lhs rhs) (hinner : Falls P inner)
    (hroof : ∀ v w, inner v + inner w < roof)
    (hrank : ∀ v, v.kind = lhs.kind → rank v =
      2 + (sites - v.objectSites.card) + (!v.includesOpaqueObject).toNat + (!v.includesNil).toNat +
        v.signatureNamedType.isNone.toNat +
        v.signatureFields.elim roof (fun f => inner f.left + inner f.right) + originRank v) :
    FallsTo rank lhs rhs { withJoinedOrigins lhs rhs with
      objectSites := lhs.objectSites ∪ rhs.objectSites
      includesOpaqueObject := lhs.includesOpaqueObject || rhs.includesOpaqueObject
      includesNil := lhs.includesNil || rhs.includesNil
      signatureNamedType := joinNamedType lhs.signatureNamedType rhs.signatureNamedType
      signatureFields := joinPointers joinPairFields lhs.signatureFields rhs.signatureFields } := by
  obtain ⟨horigins, horigins', horiginsSame⟩ := originRank_join lhs rhs
  obtain ⟨hsites, hsites', hsitesSame⟩ := sub_card_union hl.objectSites hr.objectSites
  obtain ⟨hopaqueObject, hopaqueObject', hopaqueSame⟩ :=
    toNat_not_or lhs.includesOpaqueObject rhs.includesOpaqueObject
  obtain ⟨hnil, hnil', hnilSame⟩ := toNat_not_or lhs.includesNil rhs.includesNil
  obtain ⟨hnamed, hnamed', hnamedSame⟩ := toNat_joinNamedType hcompatible.named
  have hpairs : ∀ f g, lhs.signatureFields = some f → rhs.signatureFields = some g →
      inner (joinPairFields f g).left + inner (joinPairFields f g).right ≤
          inner f.left + inner f.right ∧
        inner (joinPairFields f g).left + inner (joinPairFields f g).right ≤
          inner g.left + inner g.right ∧
        (inner (joinPairFields f g).left + inner (joinPairFields f g).right =
          inner f.left + inner f.right → joinPairFields f g = f) := by
    intro f g hf hg
    obtain ⟨hleftClash, hrightClash⟩ := hcompatible.fields f g hf hg
    have hleft := hinner f.left g.left (hl.fields f hf).1 (hr.fields g hg).1 hleftClash
    have hright := hinner f.right g.right (hl.fields f hf).2 (hr.fields g hg).2 hrightClash
    unfold joinPairFields
    refine ⟨by dsimp only; omega, by dsimp only; omega, fun heq => ?_⟩
    dsimp only at heq
    rw [hleft.2.2 (by omega), hright.2.2 (by omega)]
  have hbelow (f : PairFields) : inner f.left + inner f.right < roof := hroof f.left f.right
  obtain ⟨hfields, hfields', hfieldsSame⟩ := elim_joinPointers hbelow hpairs
  have hleft := hrank lhs rfl
  have hright := hrank rhs hkind.symm
  generalize hjoined : ({ withJoinedOrigins lhs rhs with
    objectSites := lhs.objectSites ∪ rhs.objectSites
    includesOpaqueObject := lhs.includesOpaqueObject || rhs.includesOpaqueObject
    includesNil := lhs.includesNil || rhs.includesNil
    signatureNamedType := joinNamedType lhs.signatureNamedType rhs.signatureNamedType
    signatureFields := joinPointers joinPairFields lhs.signatureFields rhs.signatureFields } :
      AbstractValue) = joined
  have hkind' : joined.kind = lhs.kind := by rw [← hjoined]; rfl
  have horiginsJoined : originRank joined = originRank (withJoinedOrigins lhs rhs) := by
    rw [← hjoined]; rfl
  have hrankJoined := hrank joined hkind'
  rw [horiginsJoined, ← hjoined] at hrankJoined
  dsimp only at hrankJoined
  rw [hjoined] at hrankJoined
  have hle := sum_falls hsites hopaqueObject hnil hnamed hfields horigins
  have hle' := sum_falls hsites' hopaqueObject' hnil' hnamed' hfields' horigins'
  rw [← hrankJoined, ← hleft] at hle
  rw [← hrankJoined, ← hright] at hle'
  refine ⟨hle.1, hle'.1, fun heq => ?_⟩
  obtain ⟨heqSites, heqOpaque, heqNil, heqNamed, heqFields, heqOrigins⟩ := hle.2 heq
  rw [← hjoined, hsitesSame heqSites, hopaqueSame heqOpaque, hnilSame heqNil,
    hnamedSame heqNamed, hfieldsSame heqFields, horiginsSame heqOrigins]
  cases lhs
  rfl

theorem fallsTo_refArray (hl : Shape sites size P Q lhs) (hr : Shape sites size P Q rhs)
    (hkind : lhs.kind = rhs.kind) (hcompatible : Compatible lhs rhs) (hinner : Falls P inner)
    (hroof : ∀ v w, inner v + inner w < roof)
    (hrank : ∀ v, v.kind = lhs.kind → rank v = 1 + (sites - v.refArraySites.card) +
      v.signatureArrayElement.elim roof inner + originRank v) :
    FallsTo rank lhs rhs { withJoinedOrigins lhs rhs with
      refArraySites := lhs.refArraySites ∪ rhs.refArraySites
      signatureArrayElement :=
        joinPointers joinValues lhs.signatureArrayElement rhs.signatureArrayElement } := by
  have horigins := originRank_join lhs rhs
  have hsites := sub_card_union hl.refArraySites hr.refArraySites
  have hbelow (v : AbstractValue) : inner v < roof :=
    (Nat.le_add_right _ (inner v)).trans_lt (hroof v v)
  have helement := elim_joinPointers hbelow fun e e' he he' =>
    hinner e e' (hl.element e he) (hr.element e' he') (hcompatible.element e e' he he')
  have hleft := hrank lhs rfl
  have hright := hrank rhs hkind.symm
  generalize hjoined : ({ withJoinedOrigins lhs rhs with
    refArraySites := lhs.refArraySites ∪ rhs.refArraySites
    signatureArrayElement :=
      joinPointers joinValues lhs.signatureArrayElement rhs.signatureArrayElement } :
      AbstractValue) = joined
  have hkind' : joined.kind = lhs.kind := by rw [← hjoined]; rfl
  have horigins' : originRank joined = originRank (withJoinedOrigins lhs rhs) := by
    rw [← hjoined]; rfl
  have hrankJoined := hrank joined hkind'
  rw [horigins', ← hjoined] at hrankJoined
  dsimp only at hrankJoined
  rw [hjoined] at hrankJoined
  refine ⟨by omega, by omega, fun heq => ?_⟩
  rw [← hjoined, hsites.2.2 (by omega), helement.2.2 (by omega), horigins.2.2 (by omega)]
  cases lhs
  rfl

theorem fallsTo_weak (hl : Shape sites size P Q lhs) (hr : Shape sites size P Q rhs)
    (hkind : lhs.kind = rhs.kind) (hcompatible : Compatible lhs rhs) (htarget : Falls Q target)
    (hpoison : rank poisonValue = 0)
    (hrank : ∀ v, v.kind = lhs.kind → rank v =
      1 + v.referenceTarget.elim 0 target + originRank v) :
    FallsTo rank lhs rhs (match lhs.referenceTarget, rhs.referenceTarget with
      | some left, some right =>
        if isPoison (joinValues left right) then poisonValue
        else { withJoinedOrigins lhs rhs with referenceTarget := some (joinValues left right) }
      | _, _ => poisonValue) := by
  have horigins := originRank_join lhs rhs
  have hleft := hrank lhs rfl
  have hright := hrank rhs hkind.symm
  have hnone : FallsTo rank lhs rhs poisonValue := ⟨by omega, by omega, by omega⟩
  split
  · next left right hl' hr' =>
    split
    · exact hnone
    · have hfalls := htarget left right (hl.target _ hl') (hr.target _ hr')
        (hcompatible.target _ _ hl' hr')
      rw [hl', Option.elim_some] at hleft
      rw [hr', Option.elim_some] at hright
      generalize hjoined : ({ withJoinedOrigins lhs rhs with
        referenceTarget := some (joinValues left right) } : AbstractValue) = joined
      have hkind' : joined.kind = lhs.kind := by rw [← hjoined]; rfl
      have htarget' : joined.referenceTarget = some (joinValues left right) := by rw [← hjoined]
      have horigins' : originRank joined = originRank (withJoinedOrigins lhs rhs) := by
        rw [← hjoined]; rfl
      have hrankJoined := hrank joined hkind'
      rw [horigins', htarget', Option.elim_some] at hrankJoined
      refine ⟨by omega, by omega, fun heq => ?_⟩
      rw [← hjoined, hfalls.2.2 (by omega), horigins.2.2 (by omega), ← hl']
      cases lhs
      rfl
  · exact hnone

end SameKind

/-- Values of one kind fall. -/
theorem fallsTo_joinSameKind (hl : Shape sites size P Q lhs) (hr : Shape sites size P Q rhs)
    (hkind : lhs.kind = rhs.kind) (hne : lhs.kind ≠ .poison) (hcompatible : Compatible lhs rhs)
    (hinner : Falls P inner) (htarget : Falls Q target)
    (hroof : ∀ v w, inner v + inner w < roof) :
    FallsTo (fun value => shapeRank sites roof inner (value.referenceTarget.elim 0 target) value)
      lhs rhs (joinSameKind lhs rhs) := by
  generalize hrank : (fun value =>
    shapeRank sites roof inner (value.referenceTarget.elim 0 target) value) = rank
  have hat (v : AbstractValue) : rank v =
      shapeRank sites roof inner (v.referenceTarget.elim 0 target) v := by rw [← hrank]
  have hpoison : rank poisonValue = 0 := by rw [hat]; rfl
  have hpos : 0 < rank lhs := by
    rw [hat, shapeRank]
    split <;> first | omega | contradiction
  have horigins (hplain : ∀ v, v.kind = lhs.kind → rank v = 1 + originRank v) :
      FallsTo rank lhs rhs (withJoinedOrigins lhs rhs) := fallsTo_origins hkind hplain
  unfold joinSameKind
  cases hlhs : lhs.kind <;> simp only
  case object =>
    exact fallsTo_object hl hr hkind hcompatible hinner hroof fun v hv => by
      rw [hat, shapeRank, hv, hlhs]
  case refArray =>
    exact fallsTo_refArray hl hr hkind hcompatible hinner hroof fun v hv => by
      rw [hat, shapeRank, hv, hlhs]
  case function =>
    exact (horigins fun v hv => by rw [hat, shapeRank, hv, hlhs]).or_poison hpoison hpos
  case map =>
    exact (horigins fun v hv => by rw [hat, shapeRank, hv, hlhs]).or_poison hpoison hpos
  case ephemeron =>
    exact (horigins fun v hv => by rw [hat, shapeRank, hv, hlhs]).or_poison hpoison hpos
  case record =>
    exact (fallsTo_nominal hkind fun v hv => by rw [hat, shapeRank, hv, hlhs]).or_poison hpoison
      hpos
  case variant =>
    exact (fallsTo_nominal hkind fun v hv => by rw [hat, shapeRank, hv, hlhs]).or_poison hpoison
      hpos
  case weak =>
    exact fallsTo_weak hl hr hkind hcompatible htarget hpoison fun v hv => by
      rw [hat, shapeRank, hv, hlhs]
  case maybeReference => exact absurd hlhs hl.plain
  case poison => exact absurd hlhs hne
  all_goals exact horigins fun v hv => by rw [hat, shapeRank, hv, hlhs]

theorem shapeRank_pos {t : ℕ} (hne : lhs.kind ≠ .poison) : 0 < shapeRank sites roof inner t lhs := by
  rw [shapeRank]
  split <;> first | omega | contradiction

theorem fallsTo_joinNominalWithNil {t t' : ℕ} (h : NominalWithNil lhs rhs) :
    shapeRank sites roof inner t (joinNominalWithNil lhs rhs) < shapeRank sites roof inner t' rhs ∧
      shapeRank sites roof inner t (joinNominalWithNil lhs rhs) ≤
        shapeRank sites roof inner t lhs ∧
      (shapeRank sites roof inner t (joinNominalWithNil lhs rhs) =
        shapeRank sites roof inner t lhs → joinNominalWithNil lhs rhs = lhs) := by
  obtain ⟨hkind, hobject⟩ := h.kinds
  obtain ⟨hleft, hright, hsame⟩ := originRank_join lhs rhs
  have hrank (v : AbstractValue) (hv : v.kind = lhs.kind) :
      shapeRank sites roof inner t v = 1 + (!v.includesNil).toNat + originRank v := by
    rcases hkind with hkind | hkind <;> rw [shapeRank, hv, hkind]
  have hnil : 2 + originRank rhs ≤ shapeRank sites roof inner t' rhs := by
    rw [shapeRank, hobject]
    dsimp only
    omega
  have hjoined := hrank (joinNominalWithNil lhs rhs) rfl
  have hlhs := hrank lhs rfl
  have horigins : originRank (joinNominalWithNil lhs rhs) =
      originRank (withJoinedOrigins lhs rhs) := rfl
  have hflag : (!(joinNominalWithNil lhs rhs).includesNil).toNat = 0 := rfl
  refine ⟨by omega, by omega, fun heq => ?_⟩
  have hincludes : lhs.includesNil = true := by
    cases hcase : lhs.includesNil with
    | true => rfl
    | false =>
      rw [hcase] at hlhs
      simp only [Bool.not_false, Bool.toNat_true] at hlhs
      omega
  have horiginsSame := hsame (by omega)
  show ({ withJoinedOrigins lhs rhs with includesNil := true } : AbstractValue) = lhs
  rw [horiginsSame, ← hincludes]
  cases lhs
  rfl

/-- Shapes fall, when their contents and their targets do. -/
theorem falls_shape (hinner : Falls P inner) (htarget : Falls Q target)
    (hroof : ∀ v w, inner v + inner w < roof) :
    Falls (Shape sites size P Q) fun value =>
      shapeRank sites roof inner (value.referenceTarget.elim 0 target) value := by
  intro lhs rhs hl hr hclash
  rcases joinValues_cases hl.plain hr.plain with
    ⟨h, heq⟩ | ⟨h, heq⟩ | ⟨hkind, heq⟩ | ⟨hkind, hne, heq⟩
  · rw [heq]
    obtain ⟨hlt, hle, hsame⟩ := fallsTo_joinNominalWithNil h
    exact ⟨hle, hlt.le, hsame⟩
  · rw [heq]
    obtain ⟨hlt, hle, -⟩ := fallsTo_joinNominalWithNil h
    exact ⟨hlt.le, hle, fun heq' => absurd heq' hlt.ne⟩
  · rw [heq]
    refine ⟨Nat.zero_le _, Nat.zero_le _, fun hzero => ?_⟩
    by_contra hne
    exact (shapeRank_pos fun hpoison => hne (hl.poison hpoison).symm).ne hzero
  · rw [heq]
    exact fallsTo_joinSameKind hl hr hkind hne (compatible_of_not_namesClash hclash hkind) hinner
      htarget hroof

end Falls

/-! ## Facts -/

/-- The facts of which no pointer leads more than `depth` steps deep. -/
def Nested (sites size : ℕ) : ℕ → AbstractValue → Prop
  | 0, _ => False
  | depth + 1, value => Shape sites size (Nested sites size depth) (Nested sites size depth) value

/-- No nested fact has a higher rank. -/
def nestedCap (sites : ℕ) : ℕ → ℕ
  | 0 => 0
  | depth + 1 => sites + 8 + 2 * nestedCap sites depth

def nestedRank (sites : ℕ) : ℕ → AbstractValue → ℕ
  | 0, _ => 0
  | depth + 1, value =>
    shapeRank sites (2 * nestedCap sites depth + 1) (nestedRank sites depth)
      (value.referenceTarget.elim 0 (nestedRank sites depth)) value

/-- The facts with nested contents, behind at most `links` weak references. -/
def Linked (sites size depth : ℕ) : ℕ → AbstractValue → Prop
  | 0, _ => False
  | links + 1, value =>
    Shape sites size (Nested sites size depth) (Linked sites size depth links) value

/-- The facts with nested contents, behind any number of weak references. -/
def Plain (sites size depth : ℕ) (value : AbstractValue) : Prop :=
  ∃ links, Linked sites size depth links value

mutual

def plainRank (sites depth : ℕ) : AbstractValue → ℕ
  | ⟨kind, objectSites, refArraySites, opaqueObject, includesNil, fields, element, function, map,
      target, named, record, variant, sourceLocal, nilTestLocal⟩ =>
    shapeRank sites (2 * nestedCap sites depth + 1) (nestedRank sites depth)
      (targetRank sites depth target)
      ⟨kind, objectSites, refArraySites, opaqueObject, includesNil, fields, element, function, map,
        target, named, record, variant, sourceLocal, nilTestLocal⟩

def targetRank (sites depth : ℕ) : Option AbstractValue → ℕ
  | some target => plainRank sites depth target
  | none => 0

end

section Plain

variable {sites size depth depth' links links' : ℕ} {value lhs rhs : AbstractValue}

theorem plainRank_eq (sites depth : ℕ) (value : AbstractValue) : plainRank sites depth value =
    shapeRank sites (2 * nestedCap sites depth + 1) (nestedRank sites depth)
      (value.referenceTarget.elim 0 (plainRank sites depth)) value := by
  obtain ⟨_, _, _, _, _, _, _, _, _, target, _, _, _, _, _⟩ := value
  rw [plainRank]
  cases target with
  | none => rw [targetRank]; rfl
  | some target => rw [targetRank]; rfl

theorem originRank_le (value : AbstractValue) : originRank value ≤ 2 := by
  have hsource := value.sourceLocal.isSome.toNat_le
  have htest := value.nilTestLocal.isSome.toNat_le
  unfold originRank
  omega

theorem nestedRank_le (sites depth : ℕ) (value : AbstractValue) :
    nestedRank sites depth value ≤ nestedCap sites depth := by
  induction depth generalizing value with
  | zero => exact le_rfl
  | succ depth ih =>
    have horigins := originRank_le value
    have hnil := (!value.includesNil).toNat_le
    have hopaqueObject := (!value.includesOpaqueObject).toNat_le
    have hnamed := value.signatureNamedType.isNone.toNat_le
    have hfields : value.signatureFields.elim (2 * nestedCap sites depth + 1)
        (fun f => nestedRank sites depth f.left + nestedRank sites depth f.right) ≤
          2 * nestedCap sites depth + 1 := by
      cases value.signatureFields with
      | none => exact le_rfl
      | some f =>
        have hleft := ih f.left
        have hright := ih f.right
        rw [Option.elim_some]
        omega
    have helement : value.signatureArrayElement.elim (2 * nestedCap sites depth + 1)
        (nestedRank sites depth) ≤ 2 * nestedCap sites depth + 1 := by
      cases value.signatureArrayElement with
      | none => exact le_rfl
      | some e =>
        have he := ih e
        rw [Option.elim_some]
        omega
    have htarget : value.referenceTarget.elim 0 (nestedRank sites depth) ≤
        nestedCap sites depth := by
      cases value.referenceTarget with
      | none => exact Nat.zero_le _
      | some t => exact ih t
    rw [nestedRank, nestedCap, shapeRank]
    split <;> omega

theorem nested_roof (sites depth : ℕ) (v w : AbstractValue) :
    nestedRank sites depth v + nestedRank sites depth w < 2 * nestedCap sites depth + 1 := by
  have hv := nestedRank_le sites depth v
  have hw := nestedRank_le sites depth w
  omega

theorem Nested.join (hl : Nested sites size depth lhs) (hr : Nested sites size depth rhs) :
    Nested sites size depth (joinValues lhs rhs) := by
  induction depth generalizing lhs rhs with
  | zero => exact hl.elim
  | succ depth ih => exact Shape.join hl hr (fun _ _ => ih) fun _ _ => ih

theorem Linked.join (hl : Linked sites size depth links lhs) (hr : Linked sites size depth links rhs) :
    Linked sites size depth links (joinValues lhs rhs) := by
  induction links generalizing lhs rhs with
  | zero => exact hl.elim
  | succ links ih => exact Shape.join hl hr (fun _ _ => Nested.join) fun _ _ => ih

theorem falls_nested (sites size depth : ℕ) :
    Falls (Nested sites size depth) (nestedRank sites depth) := by
  induction depth with
  | zero => exact fun _ _ hl => hl.elim
  | succ depth ih => exact falls_shape ih ih (nested_roof sites depth)

theorem falls_linked (sites size depth links : ℕ) :
    Falls (Linked sites size depth links) (plainRank sites depth) := by
  induction links with
  | zero => exact fun _ _ hl => hl.elim
  | succ links ih =>
    have hfalls : Falls (Linked sites size depth (links + 1)) _ :=
      falls_shape (falls_nested sites size depth) ih (nested_roof sites depth)
    have hrank : (fun value => shapeRank sites (2 * nestedCap sites depth + 1)
        (nestedRank sites depth) (value.referenceTarget.elim 0 (plainRank sites depth)) value) =
          plainRank sites depth := funext fun value => (plainRank_eq sites depth value).symm
    rw [hrank] at hfalls
    exact hfalls

theorem Nested.mono (h : Nested sites size depth value) (hle : depth ≤ depth') :
    Nested sites size depth' value := by
  induction depth generalizing depth' value with
  | zero => exact h.elim
  | succ depth ih =>
    obtain ⟨depth', rfl⟩ : ∃ d, depth' = d + 1 := ⟨depth' - 1, by omega⟩
    have hle' : depth ≤ depth' := Nat.le_of_succ_le_succ hle
    exact Shape.mono h (fun _ h => ih h hle') fun _ h => ih h hle'

theorem Linked.mono (h : Linked sites size depth links value) (hle : links ≤ links') :
    Linked sites size depth links' value := by
  induction links generalizing links' value with
  | zero => exact h.elim
  | succ links ih =>
    obtain ⟨links', rfl⟩ : ∃ l, links' = l + 1 := ⟨links' - 1, by omega⟩
    exact Shape.mono h (fun _ h => h) fun _ h => ih h (Nat.le_of_succ_le_succ hle)

/-- Nested facts are plain. -/
theorem Nested.linked (h : Nested sites size depth value) (hle : depth ≤ depth' + 1) :
    Linked sites size depth' depth value := by
  induction depth generalizing value with
  | zero => exact h.elim
  | succ depth ih =>
    exact Shape.mono h (fun _ h => h.mono (Nat.le_of_succ_le_succ hle)) fun _ h => ih h (by omega)

theorem Nested.plain (h : Nested sites size depth value) : Plain sites size depth value :=
  ⟨depth, h.linked (Nat.le_succ depth)⟩

/-- Two plain facts are linked alike. -/
theorem Plain.common (hl : Plain sites size depth lhs) (hr : Plain sites size depth rhs) :
    ∃ links, Linked sites size depth links lhs ∧ Linked sites size depth links rhs := by
  obtain ⟨k, hk⟩ := hl
  obtain ⟨l, hl⟩ := hr
  exact ⟨max k l, hk.mono (Nat.le_max_left k l), hl.mono (Nat.le_max_right k l)⟩

theorem Plain.join (hl : Plain sites size depth lhs) (hr : Plain sites size depth rhs) :
    Plain sites size depth (joinValues lhs rhs) := by
  obtain ⟨links, hl, hr⟩ := hl.common hr
  exact ⟨links, hl.join hr⟩

theorem falls_plain (sites size depth : ℕ) :
    Falls (Plain sites size depth) (plainRank sites depth) := by
  intro lhs rhs hl hr hclash
  obtain ⟨links, hl, hr⟩ := hl.common hr
  exact falls_linked sites size depth links lhs rhs hl hr hclash

/-- What a plain fact is, one step deep. -/
theorem Plain.shape (h : Plain sites size depth value) :
    Shape sites size (Nested sites size depth) (Plain sites size depth) value := by
  obtain ⟨links, h⟩ := h
  cases links with
  | zero => exact h.elim
  | succ links => exact Shape.mono h (fun _ h => h) fun _ h => ⟨links, h⟩

theorem plain_of_shape
    (h : Shape sites size (Nested sites size depth) (Plain sites size depth) value) :
    Plain sites size depth value := by
  cases htarget : value.referenceTarget with
  | none =>
    refine ⟨1, { h with target := fun t ht => ?_ }⟩
    rw [htarget] at ht
    exact nomatch ht
  | some t =>
    obtain ⟨links, hlinks⟩ := h.target t htarget
    refine ⟨links + 1, { h with target := fun t' ht' => ?_ }⟩
    rw [htarget] at ht'
    cases ht'
    exact hlinks

end Plain

end LanguageRuntime.Bytecode
