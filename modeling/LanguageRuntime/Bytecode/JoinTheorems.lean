import LanguageRuntime.Bytecode.Verify

/-!
# Joins of abstract values

What `join_values` computes, case by case, and the shape of the values the verifier builds.
-/

namespace LanguageRuntime.Bytecode

/-! ## The cases of a join -/

/-- The join of two optional facts: the one that is known, or both joined. -/
def joinPointers {α : Type} (join : α → α → α) (lhs rhs : Option α) : Option α :=
  match lhs, rhs with
  | some lhs, some rhs => some (join lhs rhs)
  | some lhs, none => some lhs
  | none, rhs => rhs

/-- The join of the fields of two pairs. -/
def joinPairFields (lhs rhs : PairFields) : PairFields :=
  ⟨joinValues lhs.left rhs.left, joinValues lhs.right rhs.right⟩

/-- The part two joined values of one kind share: everything of the left one but the origins. -/
def withJoinedOrigins (lhs rhs : AbstractValue) : AbstractValue :=
  { lhs with
    sourceLocal := joinOrigin lhs.sourceLocal rhs.sourceLocal
    nilTestLocal := joinOrigin lhs.nilTestLocal rhs.nilTestLocal }

/-- The join of two values of one kind. -/
def joinSameKind (lhs rhs : AbstractValue) : AbstractValue :=
  match lhs.kind with
  | .object =>
    { withJoinedOrigins lhs rhs with
      objectSites := lhs.objectSites ∪ rhs.objectSites
      includesOpaqueObject := lhs.includesOpaqueObject || rhs.includesOpaqueObject
      includesNil := lhs.includesNil || rhs.includesNil
      signatureNamedType := joinNamedType lhs.signatureNamedType rhs.signatureNamedType
      signatureFields := joinPointers joinPairFields lhs.signatureFields rhs.signatureFields }
  | .refArray =>
    { withJoinedOrigins lhs rhs with
      refArraySites := lhs.refArraySites ∪ rhs.refArraySites
      signatureArrayElement :=
        joinPointers joinValues lhs.signatureArrayElement rhs.signatureArrayElement }
  | .function =>
    if lhs.signatureFunction.isSome ∧ lhs.signatureFunction = rhs.signatureFunction then
      withJoinedOrigins lhs rhs
    else poisonValue
  | .map | .ephemeron =>
    if lhs.signatureMap.isSome ∧ lhs.signatureMap = rhs.signatureMap then
      withJoinedOrigins lhs rhs
    else poisonValue
  | .record =>
    if lhs.signatureRecordLayout.isSome ∧
        lhs.signatureRecordLayout = rhs.signatureRecordLayout then
      { withJoinedOrigins lhs rhs with includesNil := lhs.includesNil || rhs.includesNil }
    else poisonValue
  | .variant =>
    if lhs.signatureVariantLayout.isSome ∧
        lhs.signatureVariantLayout = rhs.signatureVariantLayout then
      { withJoinedOrigins lhs rhs with includesNil := lhs.includesNil || rhs.includesNil }
    else poisonValue
  | .weak | .maybeReference =>
    match lhs.referenceTarget, rhs.referenceTarget with
    | some left, some right =>
      if isPoison (joinValues left right) then poisonValue
      else { withJoinedOrigins lhs rhs with referenceTarget := some (joinValues left right) }
    | _, _ => poisonValue
  | _ => withJoinedOrigins lhs rhs

section Cases

variable {lhs rhs target : AbstractValue}

theorem joinValues_of_maybe_left (h : maybeTarget lhs rhs = some target) :
    joinValues lhs rhs = joinedMaybe (joinValues target rhs) := by
  rw [joinValues]
  split
  case h_1 target' htarget =>
    rw [htarget] at h
    cases h
    rfl
  case h_2 hnone => rw [hnone] at h; cases h

theorem joinValues_of_maybe_right (hlhs : maybeTarget lhs rhs = none)
    (hrhs : maybeTarget rhs lhs = some target) :
    joinValues lhs rhs = joinedMaybe (joinValues target lhs) := by
  rw [joinValues]
  split
  case h_1 hsome => rw [hlhs] at hsome; cases hsome
  case h_2 =>
    split
    case h_1 target' htarget =>
      rw [htarget] at hrhs
      cases hrhs
      rfl
    case h_2 hnone => rw [hnone] at hrhs; cases hrhs

/-- A nominal reference joined with nil. -/
def NominalWithNil (nominal nil : AbstractValue) : Prop :=
  (nominal.kind = .record ∨ nominal.kind = .variant) ∧ isCanonicalNilObject nil = true

theorem NominalWithNil.kinds (h : NominalWithNil lhs rhs) :
    (lhs.kind = .record ∨ lhs.kind = .variant) ∧ rhs.kind = .object := by
  refine ⟨h.1, ?_⟩
  have hnil := h.2
  simp only [isCanonicalNilObject, Bool.and_eq_true, beq_iff_eq] at hnil
  tauto

theorem maybeTarget_of_kind_ne (h : lhs.kind ≠ .maybeReference) : maybeTarget lhs rhs = none :=
  if_neg h

theorem joinValues_of_nominal_left (h : NominalWithNil lhs rhs) :
    joinValues lhs rhs = joinNominalWithNil lhs rhs := by
  obtain ⟨hkind, hobject⟩ := h.kinds
  have hnil := h.2
  have hlhs : maybeTarget lhs rhs = none := maybeTarget_of_kind_ne (by rcases hkind with h | h <;>
    simp [h])
  have hrhs : maybeTarget rhs lhs = none := maybeTarget_of_kind_ne (by simp [hobject])
  rw [joinValues]
  split
  case h_1 hsome => rw [hlhs] at hsome; cases hsome
  split
  case h_1 hsome => rw [hrhs] at hsome; cases hsome
  rcases hkind with hkind | hkind
  · rw [if_pos ⟨hkind, hnil⟩]
  · rw [if_neg (by simp [hkind]), if_neg (by simp [hobject]), if_pos ⟨hkind, hnil⟩]

theorem joinValues_of_nominal_right (h : NominalWithNil rhs lhs) :
    joinValues lhs rhs = joinNominalWithNil rhs lhs := by
  obtain ⟨hkind, hobject⟩ := h.kinds
  have hnil := h.2
  have hrhs : maybeTarget rhs lhs = none := maybeTarget_of_kind_ne (by rcases hkind with h | h <;>
    simp [h])
  have hlhs : maybeTarget lhs rhs = none := maybeTarget_of_kind_ne (by simp [hobject])
  rw [joinValues]
  split
  case h_1 hsome => rw [hlhs] at hsome; cases hsome
  split
  case h_1 hsome => rw [hrhs] at hsome; cases hsome
  rcases hkind with hkind | hkind
  · rw [if_neg (by simp [hobject]), if_pos ⟨hkind, hnil⟩]
  · rw [if_neg (by simp [hobject]), if_neg (by simp [hkind]), if_neg (by simp [hobject]),
      if_pos ⟨hkind, hnil⟩]

theorem joinValues_of_kind_ne (hlhs : maybeTarget lhs rhs = none)
    (hrhs : maybeTarget rhs lhs = none) (hleft : ¬ NominalWithNil lhs rhs)
    (hright : ¬ NominalWithNil rhs lhs) (h : lhs.kind ≠ rhs.kind ∨ isPoison lhs ∨ isPoison rhs) :
    joinValues lhs rhs = poisonValue := by
  rw [joinValues]
  split
  case h_1 hsome => rw [hlhs] at hsome; cases hsome
  split
  case h_1 hsome => rw [hrhs] at hsome; cases hsome
  rw [if_neg fun h => hleft ⟨.inl h.1, h.2⟩, if_neg fun h => hright ⟨.inl h.1, h.2⟩,
    if_neg fun h => hleft ⟨.inr h.1, h.2⟩, if_neg fun h => hright ⟨.inr h.1, h.2⟩, if_pos h]

theorem joinValues_of_kind_eq (hlhs : maybeTarget lhs rhs = none)
    (hrhs : maybeTarget rhs lhs = none) (h : lhs.kind = rhs.kind) (hpoison : lhs.kind ≠ .poison) :
    joinValues lhs rhs = joinSameKind lhs rhs := by
  have hnominal : ∀ {nominal nil : AbstractValue}, nominal.kind = nil.kind →
      ¬ NominalWithNil nominal nil := by
    intro nominal nil heq hnominal
    obtain ⟨hkind, hobject⟩ := hnominal.kinds
    rw [heq, hobject] at hkind
    simp at hkind
  have hleft := hnominal h
  have hright := hnominal h.symm
  rw [joinValues]
  split
  case h_1 hsome => rw [hlhs] at hsome; cases hsome
  split
  case h_1 hsome => rw [hrhs] at hsome; cases hsome
  rw [if_neg fun h => hleft ⟨.inl h.1, h.2⟩, if_neg fun h => hright ⟨.inl h.1, h.2⟩,
    if_neg fun h => hleft ⟨.inr h.1, h.2⟩, if_neg fun h => hright ⟨.inr h.1, h.2⟩,
    if_neg (by simp [isPoison, ← h, hpoison])]
  unfold joinSameKind withJoinedOrigins joinPointers joinPairFields
  cases hkind : lhs.kind <;> simp only [hkind] <;> first | rfl | (split <;> simp only [*])

/-- Everything a join of values other than maybe-references can be. -/
theorem joinValues_cases (hlhs : lhs.kind ≠ .maybeReference) (hrhs : rhs.kind ≠ .maybeReference) :
    (NominalWithNil lhs rhs ∧ joinValues lhs rhs = joinNominalWithNil lhs rhs) ∨
    (NominalWithNil rhs lhs ∧ joinValues lhs rhs = joinNominalWithNil rhs lhs) ∨
    ((lhs.kind ≠ rhs.kind ∨ lhs.kind = .poison) ∧ joinValues lhs rhs = poisonValue) ∨
    (lhs.kind = rhs.kind ∧ lhs.kind ≠ .poison ∧ joinValues lhs rhs = joinSameKind lhs rhs) := by
  have hmaybe : maybeTarget lhs rhs = none := maybeTarget_of_kind_ne hlhs
  have hmaybe' : maybeTarget rhs lhs = none := maybeTarget_of_kind_ne hrhs
  by_cases hleft : NominalWithNil lhs rhs
  · exact .inl ⟨hleft, joinValues_of_nominal_left hleft⟩
  by_cases hright : NominalWithNil rhs lhs
  · exact .inr (.inl ⟨hright, joinValues_of_nominal_right hright⟩)
  by_cases hkind : lhs.kind = rhs.kind
  · by_cases hpoison : lhs.kind = .poison
    · refine .inr (.inr (.inl ⟨.inr hpoison, ?_⟩))
      exact joinValues_of_kind_ne hmaybe hmaybe' hleft hright (.inr (.inl (by simp [isPoison, hpoison])))
    · exact .inr (.inr (.inr ⟨hkind, hpoison, joinValues_of_kind_eq hmaybe hmaybe' hkind hpoison⟩))
  · exact .inr (.inr (.inl ⟨.inl hkind, joinValues_of_kind_ne hmaybe hmaybe' hleft hright
      (.inl hkind)⟩))

end Cases

end LanguageRuntime.Bytecode
