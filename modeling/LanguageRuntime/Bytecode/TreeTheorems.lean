import LanguageRuntime.Bytecode.UpperBoundTheorems

/-!
# Values a join loses

A world of trees, in which every fact that is not void describes a tree. Where a fact is not
covered, it describes a tree that its join with the other fact does not.
-/

namespace LanguageRuntime.Bytecode

/-- The values of a small world: one value for each thing a fact can say. -/
inductive Tree where
  | nil
  | scalar (kind : AbstractKind)
  | object (site : ℕ)
  | refArray (site : ℕ)
  | named (type : ℕ)
  | pair (left right : Tree)
  | emptyArray
  | array (element : Tree)
  | typed (kind : AbstractKind) (type : Option SignatureValue)
  | laid (kind : AbstractKind) (layout : Option ℕ)
  | deadWeak
  | weak (target : Tree)

namespace Tree

/-- The kind of a tree, as far as the facts of the kind ask for it. -/
def hasKind (kind : AbstractKind) : Tree → Prop
  | scalar kind' | typed kind' _ | laid kind' _ => kind' = kind
  | refArray _ | emptyArray | array _ => kind = .refArray
  | deadWeak | weak _ => kind = .weak
  | pair _ _ | object _ | named _ => kind = .object
  | nil => False

def isReference : Tree → Prop
  | nil => False
  | scalar kind => isReferenceKind kind = true
  | _ => True

end Tree

/-- The world of trees, in which all locals hold the tree `here`. -/
def treeWorld (here : Tree) : World Tree where
  isKind := Tree.hasKind
  isNil := (· = .nil)
  isReference := Tree.isReference
  objectSite site tree := tree = .object site
  arraySite site tree := tree = .refArray site
  instanceOf type tree := tree = .named type
  hasFields tree left right := tree = .pair left right
  hasElement tree element := tree = .array element
  hasTarget tree target := tree = .weak target
  hasType type tree := ∃ kind, tree = .typed kind (some type)
  hasLayout layout tree := ∃ kind, tree = .laid kind (some layout)
  isLocal _ tree := tree = here
  isNilTest _ tree := tree = here
  reference_of_site := by
    rintro site _ rfl
    trivial
  reference_of_instance := by
    rintro type _ rfl
    trivial
  reference_of_fields := by
    rintro _ left right rfl
    trivial
  reference_of_kind := by
    intro kind tree hkind htree
    cases tree <;> simp_all [Tree.hasKind, Tree.isReference]
  kind_of_arraySite := by
    rintro site _ rfl
    rfl

section Trees

variable {sites size depth : ℕ} {fact lhs rhs : AbstractValue}

/-- A tree that a fact describes, its origins apart, whatever the locals hold. -/
def Shows (fact : AbstractValue) (tree : Tree) : Prop := ∀ here, HasShape (treeWorld here) fact tree

theorem describes_of_shows {tree here : Tree} (h : Shows fact tree) (hbare : Bare fact) :
    Describes (treeWorld here) fact tree :=
  ⟨h here, hasOrigins_of_bare hbare⟩

theorem shows_of_describes {tree : Tree} (h : ∀ here, Describes (treeWorld here) fact tree) :
    Shows fact tree :=
  fun here => (h here).1

/-- A plain fact that is not void describes a tree. -/
theorem exists_shows (n : ℕ) : ∀ {fact : AbstractValue}, fact.depth ≤ n →
    Plain sites size depth fact → isVoid fact = false → ∃ tree, Shows fact tree := by
  -- by induction on how deep the fact nests
  induction n with
  | zero =>
    intro fact hdepth
    have heq := fact.depth_eq
    omega
  | succ n ih =>
    intro fact hdepth h hvoid
    cases hkind : fact.kind
    case object =>
      rw [isVoid_object hkind] at hvoid
      by_cases hnil : fact.includesNil = true
      · refine ⟨.nil, fun here => ?_⟩
        rw [hasShape_object hkind]
        exact .inl ⟨hnil, rfl⟩
      by_cases hsites : fact.objectSites = ∅
      case neg =>
        obtain ⟨site, hsite⟩ := Finset.nonempty_iff_ne_empty.mpr hsites
        refine ⟨.object site, fun here => ?_⟩
        rw [hasShape_object hkind]
        exact .inr (.inl ⟨site, hsite, rfl⟩)
      by_cases hopaqueObject : fact.includesOpaqueObject = true
      · refine ⟨.pair .nil .nil, fun here => ?_⟩
        rw [hasShape_object hkind]
        exact .inr (.inr (.inl ⟨hopaqueObject, trivial⟩))
      cases hnamed : fact.signatureNamedType with
      | some type =>
        refine ⟨.named type, fun here => ?_⟩
        rw [hasShape_object hkind]
        exact .inr (.inr (.inr (.inl ⟨type, hnamed, rfl⟩)))
      | none =>
        cases hfields : fact.signatureFields with
        | none =>
          rw [hsites, hnamed, hfields] at hvoid
          simp [hnil, hopaqueObject, fieldsVoid] at hvoid
        | some fields =>
          rw [hsites, hnamed, hfields, fieldsVoid_some] at hvoid
          simp [hnil, hopaqueObject] at hvoid
          have hleft : Inner fact fields.left := .inl ⟨fields, hfields, .inl rfl⟩
          have hright : Inner fact fields.right := .inl ⟨fields, hfields, .inr rfl⟩
          have hsize := AbstractValue.depth_signatureFields hfields
          obtain ⟨left, hl⟩ := ih (by omega) (h.inner hleft).2 hvoid.1
          obtain ⟨right, hr⟩ := ih (by omega) (h.inner hright).2 hvoid.2
          refine ⟨.pair left right, fun here => ?_⟩
          rw [hasShape_object hkind, hfields, fieldsDescribe_some]
          exact .inr (.inr (.inr (.inr ⟨left, right, rfl,
            describes_of_shows hl (h.shape.bare _ hleft),
            describes_of_shows hr (h.shape.bare _ hright)⟩)))
    case refArray =>
      rw [isVoid_refArray hkind] at hvoid
      by_cases hsites : fact.refArraySites = ∅
      case neg =>
        obtain ⟨site, hsite⟩ := Finset.nonempty_iff_ne_empty.mpr hsites
        refine ⟨.refArray site, fun here => ?_⟩
        rw [hasShape_refArray hkind]
        exact .inl ⟨site, hsite, rfl⟩
      cases helement : fact.signatureArrayElement with
      | none =>
        rw [hsites, helement] at hvoid
        simp at hvoid
      | some element =>
        refine ⟨.emptyArray, fun here => ?_⟩
        rw [hasShape_refArray hkind, helement, elementDescribes_some]
        exact .inr ⟨rfl, fun _ helement => by cases helement⟩
    case maybeReference => exact absurd hkind h.kind_ne
    case poison =>
      refine ⟨.nil, fun here => ?_⟩
      rw [h.shape.poison hkind]
      exact hasShape_poisonValue
    case weak =>
      refine ⟨.deadWeak, fun here => ?_⟩
      rw [hasShape_weak hkind]
      refine ⟨rfl, ?_⟩
      cases fact.referenceTarget with
      | none => rw [TargetDescribes]; trivial
      | some target =>
        rw [targetDescribes_some]
        exact fun _ htarget => by cases htarget
    case function =>
      refine ⟨.typed .function fact.signatureFunction, fun here => ?_⟩
      rw [hasShape_function hkind]
      exact ⟨rfl, fun type htype => ⟨.function, by rw [htype]⟩⟩
    case map =>
      refine ⟨.typed .map fact.signatureMap, fun here => ?_⟩
      rw [hasShape_entries (.inl rfl) hkind]
      exact ⟨rfl, fun type htype => ⟨.map, by rw [htype]⟩⟩
    case ephemeron =>
      refine ⟨.typed .ephemeron fact.signatureMap, fun here => ?_⟩
      rw [hasShape_entries (.inr rfl) hkind]
      exact ⟨rfl, fun type htype => ⟨.ephemeron, by rw [htype]⟩⟩
    case record =>
      refine ⟨.laid .record fact.signatureRecordLayout, fun here => ?_⟩
      rw [hasShape_record hkind]
      exact .inr ⟨rfl, fun layout hlayout => ⟨.record, by rw [hlayout]⟩⟩
    case variant =>
      refine ⟨.laid .variant fact.signatureVariantLayout, fun here => ?_⟩
      rw [hasShape_variant hkind]
      exact .inr ⟨rfl, fun layout hlayout => ⟨.variant, by rw [hlayout]⟩⟩
    all_goals
      refine ⟨.scalar fact.kind, fun here => ?_⟩
      rw [hasShape_simple (by simp) hkind]
      exact hkind

/-! ## Lost trees -/

/-- The join of two facts, which there is, does not describe a tree that the left one does. -/
def Loses (lhs rhs : AbstractValue) : Prop :=
  (joinValues lhs rhs).kind ≠ .poison ∧
    ∃ tree, tree ≠ .nil ∧ Shows lhs tree ∧
      ∀ here, ¬HasShape (treeWorld here) (joinValues lhs rhs) tree

theorem fieldsCovered_eq_false {fields fields' : Option PairFields}
    (h : fieldsCovered fields fields' = false) :
    ∃ f g, fields = some f ∧ fields' = some g ∧ isVoid f.left = false ∧ isVoid f.right = false ∧
      (covered f.left g.left = false ∨ covered f.right g.right = false) := by
  cases fields with
  | none => exact nomatch h
  | some f =>
    cases fields' with
    | none => exact nomatch h
    | some g =>
      rw [fieldsCovered_some, Bool.or_eq_false_iff, Bool.or_eq_false_iff, Bool.and_eq_false_iff]
        at h
      exact ⟨f, g, rfl, rfl, h.1.1, h.1.2, h.2⟩

theorem pointerCovered_eq_false {pointer pointer' : Option AbstractValue}
    (h : pointerCovered pointer pointer' = false) :
    ∃ a b, pointer = some a ∧ pointer' = some b ∧ covered a b = false := by
  cases pointer with
  | none => exact nomatch h
  | some a =>
    cases pointer' with
    | none => exact nomatch h
    | some b => exact ⟨a, b, rfl, rfl, by rwa [pointerCovered_some] at h⟩

/-- Only a pair has fields. -/
theorem pair_of_fieldsDescribe {here tree : Tree} {fields : Option PairFields}
    (h : FieldsDescribe (treeWorld here) fields tree) :
    ∃ f left right, fields = some f ∧ tree = .pair left right ∧
      HasShape (treeWorld here) f.left left ∧ HasShape (treeWorld here) f.right right := by
  cases fields with
  | none =>
    rw [FieldsDescribe] at h
    exact h.elim
  | some f =>
    rw [fieldsDescribe_some] at h
    obtain ⟨left, right, htree, hl, hr⟩ := h
    exact ⟨f, left, right, rfl, htree, hl.1, hr.1⟩

/-- The join of two object facts without opaque references, at a named instance or a pair. -/
theorem hasShape_joined_object {here tree : Tree} (hl : lhs.kind = .object)
    (hopaqueObject : (lhs.includesOpaqueObject || rhs.includesOpaqueObject) = false)
    (h : HasShape (treeWorld here) (joinSameKind lhs rhs) tree) (hnil : tree ≠ .nil)
    (hsite : ∀ site, tree ≠ .object site) :
    (∃ type, joinNamedType lhs.signatureNamedType rhs.signatureNamedType = some type ∧
      tree = .named type) ∨
      FieldsDescribe (treeWorld here)
        (joinPointers joinPairFields lhs.signatureFields rhs.signatureFields) tree := by
  have hjoined : (joinSameKind lhs rhs).kind = .object := by
    rw [joinSameKind, hl]
    exact hl
  rw [hasShape_object hjoined, joinSameKind, hl] at h
  dsimp only at h
  rw [hopaqueObject] at h
  rcases h with ⟨-, hv⟩ | ⟨site, -, hv⟩ | ⟨hopaque', -⟩ | hv | hv
  · exact absurd hv hnil
  · exact absurd hv (hsite site)
  · cases hopaque'
  · exact .inl hv
  · exact .inr hv

theorem kind_joined_object (hl : lhs.kind = .object) : (joinSameKind lhs rhs).kind ≠ .poison := by
  rw [joinSameKind, hl]
  show lhs.kind ≠ .poison
  rw [hl]
  intro hno
  cases hno

/-- Two named types: the join forgets both. -/
theorem loses_names {type type' : ℕ} (hl : lhs.kind = .object)
    (heq : joinValues lhs rhs = joinSameKind lhs rhs)
    (hopaqueObject : (lhs.includesOpaqueObject || rhs.includesOpaqueObject) = false)
    (htype : lhs.signatureNamedType = some type) (htype' : rhs.signatureNamedType = some type')
    (hne : type ≠ type') : Loses lhs rhs := by
  rw [Loses, heq]
  refine ⟨kind_joined_object hl, .named type, nofun, fun here => ?_, fun here h => ?_⟩
  · rw [hasShape_object hl]
    exact .inr (.inr (.inr (.inl ⟨type, htype, rfl⟩)))
  · rcases hasShape_joined_object hl hopaqueObject h nofun nofun with ⟨joined, hjoined, -⟩ | hfields
    · have hnone : joinNamedType (some type) (some type') = none := if_neg (by simpa using hne)
      rw [htype, htype', hnone] at hjoined
      exact nomatch hjoined
    · obtain ⟨f, left, right, -, htree, -⟩ := pair_of_fieldsDescribe hfields
      exact nomatch htree

theorem loses_fields {f g : PairFields} {left right : Tree} (hl : lhs.kind = .object)
    (heq : joinValues lhs rhs = joinSameKind lhs rhs)
    (hopaqueObject : (lhs.includesOpaqueObject || rhs.includesOpaqueObject) = false)
    (hf : lhs.signatureFields = some f) (hg : rhs.signatureFields = some g)
    (hleft : Shows f.left left) (hright : Shows f.right right)
    (hbare : Bare f.left ∧ Bare f.right)
    (hlost : (∀ here, ¬HasShape (treeWorld here) (joinValues f.left g.left) left) ∨
      ∀ here, ¬HasShape (treeWorld here) (joinValues f.right g.right) right) : Loses lhs rhs := by
  rw [Loses, heq]
  refine ⟨kind_joined_object hl, .pair left right, nofun, fun here => ?_, fun here h => ?_⟩
  · rw [hasShape_object hl, hf, fieldsDescribe_some]
    exact .inr (.inr (.inr (.inr ⟨left, right, rfl, describes_of_shows hleft hbare.1,
      describes_of_shows hright hbare.2⟩)))
  · rcases hasShape_joined_object hl hopaqueObject h nofun nofun with ⟨type, -, htree⟩ | hfields
    · exact nomatch htree
    · rw [hf, hg] at hfields
      obtain ⟨joined, left', right', hjoined, htree, hl, hr⟩ := pair_of_fieldsDescribe hfields
      cases hjoined
      cases htree
      exact hlost.elim (fun h => h here hl) fun h => h here hr

theorem loses_element {e e' : AbstractValue} {element : Tree} (hl : lhs.kind = .refArray)
    (heq : joinValues lhs rhs = joinSameKind lhs rhs) (he : lhs.signatureArrayElement = some e)
    (he' : rhs.signatureArrayElement = some e') (hshows : Shows e element) (hbare : Bare e)
    (hlost : ∀ here, ¬HasShape (treeWorld here) (joinValues e e') element) : Loses lhs rhs := by
  have hjoined : (joinSameKind lhs rhs).kind = .refArray := by
    rw [joinSameKind, hl]
    exact hl
  rw [Loses, heq]
  refine ⟨?_, .array element, (fun hno => by cases hno), fun here => ?_, fun here h => ?_⟩
  · rw [hjoined]
    intro hno
    cases hno
  · rw [hasShape_refArray hl, he, elementDescribes_some]
    refine .inr ⟨rfl, fun a ha => ?_⟩
    cases ha
    exact describes_of_shows hshows hbare
  · rw [hasShape_refArray hjoined, joinSameKind, hl] at h
    dsimp only at h
    rw [he, he'] at h
    rcases h with ⟨site, -, htree⟩ | helement
    · cases htree
    · have hdescribes := (elementDescribes_some (joinValues e e')).mp helement
      exact hlost here (hdescribes.2 element rfl).1

theorem loses_target {t t' : AbstractValue} {target : Tree} (hl : lhs.kind = .weak)
    (heq : joinValues lhs rhs = joinSameKind lhs rhs) (ht : lhs.referenceTarget = some t)
    (ht' : rhs.referenceTarget = some t') (hne : (joinValues t t').kind ≠ .poison)
    (hshows : Shows t target) (hbare : Bare t)
    (hlost : ∀ here, ¬HasShape (treeWorld here) (joinValues t t') target) : Loses lhs rhs := by
  have hpoison : ¬isPoison (joinValues t t') = true := by simpa [isPoison] using hne
  rw [Loses, heq, joinSameKind, hl]
  dsimp only
  rw [ht, ht']
  dsimp only
  rw [if_neg hpoison]
  refine ⟨?_, .weak target, (fun hno => by cases hno), fun here => ?_, fun here h => ?_⟩
  · show lhs.kind ≠ .poison
    rw [hl]
    intro hno
    cases hno
  · rw [hasShape_weak hl, ht, targetDescribes_some]
    refine ⟨rfl, fun a ha => ?_⟩
    cases ha
    exact describes_of_shows hshows hbare
  · rw [hasShape_weak (by exact hl)] at h
    dsimp only at h
    rw [targetDescribes_some] at h
    exact hlost here (h.2 target rfl).1

/-- A fact that is not covered loses a tree. -/
theorem loses_of_not_covered (n : ℕ) : ∀ {lhs rhs : AbstractValue}, lhs.depth + rhs.depth ≤ n →
    Plain sites size depth lhs → Plain sites size depth rhs → covered lhs rhs = false →
      Loses lhs rhs := by
  -- by induction on how deep the facts nest
  induction n with
  | zero =>
    intro lhs rhs hdepth
    have hlhs := lhs.depth_eq
    omega
  | succ n ih =>
    intro lhs rhs hdepth hl hr hcovered
    have hinner : ∀ a b, Inner lhs a → Inner rhs b → covered a b = false → Loses a b := by
      intro a b ha hb
      obtain ⟨hasize, haplain⟩ := hl.inner ha
      obtain ⟨hbsize, hbplain⟩ := hr.inner hb
      exact ih (by omega) haplain hbplain
    have hkind : lhs.kind = rhs.kind := by
      by_contra hne
      rw [covered_of_kind_ne hne] at hcovered
      exact nomatch hcovered
    have heq (hne : lhs.kind ≠ .poison) : joinValues lhs rhs = joinSameKind lhs rhs :=
      joinValues_of_kind_eq (maybeTarget_of_kind_ne hl.kind_ne) (maybeTarget_of_kind_ne hr.kind_ne)
        hkind hne
    by_cases hobject : lhs.kind = .object
    · have heq := heq (by rw [hobject]; exact nofun)
      rw [covered_object hobject (hkind ▸ hobject), Bool.or_eq_false_iff, Bool.and_eq_false_iff]
        at hcovered
      obtain ⟨hopaqueObject, hnamed | hfields⟩ := hcovered
      · cases htype : lhs.signatureNamedType with
        | none => rw [htype] at hnamed; exact nomatch hnamed
        | some type =>
          cases htype' : rhs.signatureNamedType with
          | none => rw [htype, htype'] at hnamed; exact nomatch hnamed
          | some type' =>
            rw [htype, htype'] at hnamed
            exact loses_names hobject heq hopaqueObject htype htype' (by simpa using hnamed)
      · obtain ⟨f, g, hf, hg, hvoid, hvoid', hlost⟩ := fieldsCovered_eq_false hfields
        have hleft : Inner lhs f.left := .inl ⟨f, hf, .inl rfl⟩
        have hright : Inner lhs f.right := .inl ⟨f, hf, .inr rfl⟩
        have hbare := And.intro (hl.shape.bare _ hleft) (hl.shape.bare _ hright)
        rcases hlost with hlost | hlost
        · obtain ⟨-, left, -, hshows, hlost⟩ := hinner _ _ hleft (.inl ⟨g, hg, .inl rfl⟩) hlost
          obtain ⟨right, hright⟩ := exists_shows _ le_rfl (hl.inner hright).2 hvoid'
          exact loses_fields hobject heq hopaqueObject hf hg hshows hright hbare (.inl hlost)
        · obtain ⟨-, right, -, hshows, hlost⟩ := hinner _ _ hright (.inl ⟨g, hg, .inr rfl⟩) hlost
          obtain ⟨left, hleft⟩ := exists_shows _ le_rfl (hl.inner hleft).2 hvoid
          exact loses_fields hobject heq hopaqueObject hf hg hleft hshows hbare (.inr hlost)
    by_cases harray : lhs.kind = .refArray
    · have heq := heq (by rw [harray]; exact nofun)
      rw [covered_refArray harray (hkind ▸ harray)] at hcovered
      obtain ⟨e, e', he, he', hcovered⟩ := pointerCovered_eq_false hcovered
      have hpointer : Inner lhs e := .inr (.inl he)
      obtain ⟨-, element, -, hshows, hlost⟩ := hinner e e' hpointer (.inr (.inl he')) hcovered
      exact loses_element harray heq he he' hshows (hl.shape.bare _ hpointer) hlost
    by_cases hweak : lhs.kind = .weak
    · have heq := heq (by rw [hweak]; exact nofun)
      rw [covered_weak hweak (hkind ▸ hweak)] at hcovered
      obtain ⟨t, t', ht, ht', hcovered⟩ := pointerCovered_eq_false hcovered
      have hpointer : Inner lhs t := .inr (.inr ht)
      obtain ⟨hne, target, -, hshows, hlost⟩ := hinner t t' hpointer (.inr (.inr ht')) hcovered
      exact loses_target hweak heq ht ht' hne hshows (hl.shape.bare _ hpointer) hlost
    · rw [covered_other hobject harray hweak] at hcovered
      exact nomatch hcovered

/-! ## Facts -/

/-- A join, which there is, of two facts of a place leaves out a value of the left one. -/
def LeavesOut (lhs rhs : AbstractValue) : Prop :=
  joinValues lhs rhs ≠ poisonValue ∧
    ∃ tree, Describes (treeWorld tree) lhs tree ∧
      ¬Describes (treeWorld tree) (joinValues lhs rhs) tree

/-- In a world whose locals hold the value, every origin is right. -/
theorem hasOrigins_here (fact : AbstractValue) (tree : Tree) :
    HasOrigins (treeWorld tree) fact tree :=
  ⟨fun _ _ => rfl, fun _ _ => rfl⟩

theorem hasShape_maybe {here tree : Tree} (source test : Option ℕ) (hbare : Bare fact)
    (h : Shows fact tree) : HasShape (treeWorld here) (maybeOf fact source test) tree := by
  rw [hasShape_maybeOf]
  exact .inr (describes_of_shows h hbare)

theorem not_describes_maybe {here tree : Tree} (source test : Option ℕ) (hnil : tree ≠ .nil)
    (h : ¬HasShape (treeWorld here) fact tree) :
    ¬Describes (treeWorld here) (maybeOf fact source test) tree := fun hdescribes => by
  have hshape := hdescribes.1
  rw [hasShape_maybeOf] at hshape
  rcases hshape with hv | hv
  · exact hnil hv
  · exact h hv.1

theorem not_describes_joinedMaybe {here tree : Tree} (hpoison : ¬isPoison fact = true)
    (hnil : tree ≠ .nil) (h : ¬HasShape (treeWorld here) fact tree) :
    joinedMaybe fact ≠ poisonValue ∧ ¬Describes (treeWorld here) (joinedMaybe fact) tree := by
  rw [joinedMaybe, if_neg hpoison, maybeReferenceValue_eq]
  refine ⟨nofun, not_describes_maybe none none hnil fun hshape => h ?_⟩
  exact (hasShape_withOrigins none none).mp hshape

theorem ne_poisonValue (h : fact.kind ≠ .poison) : fact ≠ poisonValue := fun heq =>
  h (congrArg AbstractValue.kind heq)

/-- A fact of a place that is not covered leaves a value out of the join. -/
theorem Fact.leavesOut (hl : Fact sites size depth lhs) (hr : Fact sites size depth rhs)
    (hcovered : covered (withoutMaybe lhs) (withoutMaybe rhs) = false) : LeavesOut lhs rhs := by
  have hkinds : (withoutMaybe lhs).kind = (withoutMaybe rhs).kind := by
    by_contra hne
    rw [covered_of_kind_ne hne] at hcovered
    cases hcovered
  cases hl with
  | plain hl =>
    rw [withoutMaybe_plain hl] at hcovered hkinds
    cases hr with
    | plain hr =>
      rw [withoutMaybe_plain hr] at hcovered
      obtain ⟨hne, tree, -, hshows, hlost⟩ := loses_of_not_covered _ le_rfl hl hr hcovered
      exact ⟨ne_poisonValue hne, tree, ⟨hshows tree, hasOrigins_here lhs tree⟩, fun h =>
        hlost tree h.1⟩
    | @maybe target source test hne hr hbare =>
      rw [withoutMaybe_maybeOf] at hcovered hkinds
      obtain ⟨hne, tree, hnil, hshows, hlost⟩ := loses_of_not_covered _ le_rfl hl hr hcovered
      have hmaybe : maybeTarget (maybeOf target source test) lhs = some target := by
        rw [maybeTarget_maybeOf, if_pos hkinds.symm]
      rw [LeavesOut, joinValues_of_maybe_right (maybeTarget_of_kind_ne hl.kind_ne) hmaybe,
        hr.joinValues_comm hl]
      have hjoined := not_describes_joinedMaybe (by simpa [isPoison] using hne) hnil (hlost tree)
      exact ⟨hjoined.1, tree, ⟨hshows tree, hasOrigins_here lhs tree⟩, hjoined.2⟩
  | @maybe target source test hne hl hbare =>
    rw [withoutMaybe_maybeOf] at hcovered hkinds
    cases hr with
    | plain hr =>
      rw [withoutMaybe_plain hr] at hcovered hkinds
      obtain ⟨hne, tree, hnil, hshows, hlost⟩ := loses_of_not_covered _ le_rfl hl hr hcovered
      have hmaybe : maybeTarget (maybeOf target source test) rhs = some target := by
        rw [maybeTarget_maybeOf, if_pos hkinds]
      rw [LeavesOut, joinValues_of_maybe_left hmaybe]
      have hjoined := not_describes_joinedMaybe (by simpa [isPoison] using hne) hnil (hlost tree)
      exact ⟨hjoined.1, tree, ⟨hasShape_maybe source test hbare hshows, hasOrigins_here _ tree⟩,
        hjoined.2⟩
    | @maybe target' source' test' hne' hr hbare' =>
      rw [withoutMaybe_maybeOf] at hcovered
      obtain ⟨hne, tree, hnil, hshows, hlost⟩ := loses_of_not_covered _ le_rfl hl hr hcovered
      rw [LeavesOut, joinValues_maybe_maybe hl hr, if_neg (by simpa [isPoison] using hne)]
      exact ⟨(fun hno => by cases hno), tree,
        ⟨hasShape_maybe source test hbare hshows, hasOrigins_here _ tree⟩,
        not_describes_maybe _ _ hnil (hlost tree)⟩

end Trees

end LanguageRuntime.Bytecode
