import LanguageRuntime.Frontend.GenericsTheorems
import LanguageRuntime.Frontend.TypeEquality
import LanguageRuntime.Library.PrefixCode
import Mathlib.Data.List.Find

/-!
# Canonical keys are injective

Two resolved types are equal exactly when they have one tree, the key of a type is the text of
its tree, and the text of a tree can be read back. Together: two tuples of resolved types have
one key exactly when they are equal, and the search for an instance finds what a search by
equality would find.
-/

namespace LanguageRuntime.Frontend

open Library

variable {names : NominalNames}

/-! ## Equal types have one tree -/

/-- The kind of the types with a tree. -/
def ConcreteType.kind : ConcreteType → TypeSpec.Kind
  | .int64 => .int64
  | .bool => .bool
  | .str => .str
  | .builder => .builder
  | .opaquePair | .pair _ _ => .pair
  | .array _ => .array
  | .function _ _ => .function
  | .map _ _ => .map
  | .weak _ => .weak
  | .ephemeron _ _ => .ephemeron
  | .named _ => .named
  | .record _ => .record
  | .variant _ => .variant

theorem tree_kind {type : TypeSpec} (h : type.Resolved names) :
    type.tree.kind = type.kind := by
  cases type with
  | mk kind left right =>
    cases kind with
    | typeParameter | nil | invalid => exact h.elim
    | pair =>
      cases left with
      | none => rfl
      | some left => cases right <;> rfl
    | _ => rfl

mutual

theorem equals_iff_tree : ∀ lhs rhs : TypeSpec, lhs.Resolved names → rhs.Resolved names →
    (lhs.equals rhs = true ↔ lhs.tree = rhs.tree)
  | { kind, left, right, element, key, value, weakTarget, functionParameters, functionReturn,
      name, position, namedTypeIndex, recordLayoutIndex, variantLayoutIndex,
      typeParameterIndex, genericArguments, genericDeclarationIndex }, rhs, hl, hr => by
    have hleft := equalsOption_iff_tree left
    have hright := equalsOption_iff_tree right
    have helement := equalsOption_iff_tree element
    have hkey := equalsOption_iff_tree key
    have hvalue := equalsOption_iff_tree value
    have htarget := equalsOption_iff_tree weakTarget
    have hreturn := equalsOption_iff_tree functionReturn
    have hparameters := equalsList_iff_tree functionParameters
    obtain ⟨kind', left', right', element', key', value', weakTarget', functionParameters',
      functionReturn', name', position', namedTypeIndex', recordLayoutIndex',
      variantLayoutIndex', typeParameterIndex', genericArguments',
      genericDeclarationIndex'⟩ := rhs
    by_cases hkind : kind = kind'
    · subst hkind
      cases kind with
      | int64 | bool | str | builder => simp [TypeSpec.equals, TypeSpec.tree]
      | typeParameter | nil | invalid => exact hl.elim
      | pair =>
        rw [TypeSpec.Resolved] at hl hr
        simp only [TypeSpec.equals, TypeSpec.tree, TypeSpec.hasPairFields]
        cases left <;> cases right <;> cases left' <;> cases right' <;>
          simp_all [treeOption]
      | array =>
        rw [TypeSpec.Resolved] at hl hr
        simp only [TypeSpec.equals, TypeSpec.tree, ConcreteType.array.injEq, ne_eq,
          not_true_eq_false, if_false]
        exact helement element' hl.1 hr.1 hl.2 hr.2
      | function =>
        rw [TypeSpec.Resolved] at hl hr
        simp only [TypeSpec.equals, TypeSpec.tree, ConcreteType.function.injEq, ne_eq,
          not_true_eq_false, if_false, hl.1, hr.1, Bool.and_eq_true, true_and,
          hreturn functionReturn' hl.1 hr.1 hl.2.2 hr.2.2,
          hparameters functionParameters' hl.2.1 hr.2.1]
        exact and_comm
      | map | ephemeron =>
        rw [TypeSpec.Resolved] at hl hr
        simp only [TypeSpec.equals, TypeSpec.tree, ConcreteType.map.injEq,
          ConcreteType.ephemeron.injEq, ne_eq, not_true_eq_false, if_false, Bool.and_eq_true,
          hkey key' hl.1 hr.1 hl.2.2.1 hr.2.2.1, hvalue value' hl.2.1 hr.2.1 hl.2.2.2 hr.2.2.2]
      | weak =>
        rw [TypeSpec.Resolved] at hl hr
        simp only [TypeSpec.equals, TypeSpec.tree, ConcreteType.weak.injEq, ne_eq,
          not_true_eq_false, if_false]
        exact htarget weakTarget' hl.1 hr.1 hl.2 hr.2
      | named | record | variant =>
        obtain ⟨index, rfl, -⟩ := hl
        obtain ⟨index', rfl, -⟩ := hr
        simp [TypeSpec.equals, TypeSpec.tree]
    · apply iff_of_false
      · simp [TypeSpec.equals, hkind]
      · intro htree
        have hkinds := (tree_kind hl).symm.trans ((congrArg _ htree).trans (tree_kind hr))
        exact hkind hkinds

theorem equalsOption_iff_tree : ∀ lhs rhs : Option TypeSpec, lhs.isSome → rhs.isSome →
    ResolvedOption names lhs → ResolvedOption names rhs →
    (equalsOption lhs rhs = true ↔ treeOption lhs = treeOption rhs)
  | none, _, h, _, _, _ => nomatch h
  | some _, none, _, h, _, _ => nomatch h
  | some lhs, some rhs, _, _, hl, hr => equals_iff_tree lhs rhs hl hr

theorem equalsList_iff_tree : ∀ lhs rhs : List TypeSpec, ResolvedList names lhs →
    ResolvedList names rhs → (equalsList lhs rhs = true ↔ treeList lhs = treeList rhs)
  | [], [], _, _ => by simp [equalsList]
  | [], _ :: _, _, _ => by simp [equalsList, treeList]
  | _ :: _, [], _, _ => by simp [equalsList, treeList]
  | lhs :: lefts, rhs :: rights, hl, hr => by
    rw [ResolvedList] at hl hr
    rw [equalsList, treeList, treeList, Bool.and_eq_true, equals_iff_tree lhs rhs hl.1 hr.1,
      equalsList_iff_tree lefts rights hl.2 hr.2, List.cons.injEq]

end

/-! ## The key is the text of the tree -/

theorem nominalKey_eq_text (tag : Char) (index : ℕ) (name : String) :
    nominalKey (String.ofList [tag]) index name = String.ofList (nominalText tag index name) := by
  rw [← String.toList_inj]
  simp [nominalKey, nominalText]

theorem length_treeList : ∀ types : List TypeSpec, (treeList types).length = types.length
  | [] => rfl
  | _ :: types => congrArg Nat.succ (length_treeList types)

mutual

theorem key_eq_text : ∀ type : TypeSpec, type.Resolved names →
    canonicalConcreteTypeKey type = .ok (String.ofList (type.tree.text names))
  | { kind, left, right, element, key, value, weakTarget, functionParameters, functionReturn,
      namedTypeIndex, recordLayoutIndex, variantLayoutIndex, .. }, h => by
    have hleft := componentKey_eq_text left
    have hright := componentKey_eq_text right
    have helement := componentKey_eq_text element
    have hkey := componentKey_eq_text key
    have hvalue := componentKey_eq_text value
    have htarget := componentKey_eq_text weakTarget
    have hreturn := componentKey_eq_text functionReturn
    have hparameters := parameterKeys_eq_text functionParameters
    cases kind with
    | int64 | bool | str | builder => rfl
    | typeParameter | nil | invalid => exact h.elim
    | pair =>
      rw [TypeSpec.Resolved] at h
      cases left with
      | none => rfl
      | some left =>
        cases right with
        | none => rfl
        | some right =>
          simp only [canonicalConcreteTypeKey, hleft left rfl h.1, hright right rfl h.2, ok_bind]
          apply congrArg Except.ok
          rw [← String.toList_inj]
          simp [TypeSpec.tree, ConcreteType.text, treeOption]
    | array =>
      rw [TypeSpec.Resolved] at h
      obtain ⟨element, rfl⟩ := Option.isSome_iff_exists.mp h.1
      simp only [canonicalConcreteTypeKey, helement element rfl h.2, ok_bind]
      apply congrArg Except.ok
      rw [← String.toList_inj]
      simp [TypeSpec.tree, ConcreteType.text, treeOption]
    | function =>
      rw [TypeSpec.Resolved] at h
      obtain ⟨functionReturn, rfl⟩ := Option.isSome_iff_exists.mp h.1
      simp only [canonicalConcreteTypeKey, hparameters h.2.1, hreturn functionReturn rfl h.2.2,
        ok_bind]
      apply congrArg Except.ok
      rw [← String.toList_inj]
      simp [TypeSpec.tree, ConcreteType.text, treeOption, length_treeList]
    | map | ephemeron =>
      rw [TypeSpec.Resolved] at h
      obtain ⟨key, rfl⟩ := Option.isSome_iff_exists.mp h.1
      obtain ⟨value, rfl⟩ := Option.isSome_iff_exists.mp h.2.1
      simp only [canonicalConcreteTypeKey, hkey key rfl h.2.2.1, hvalue value rfl h.2.2.2,
        ok_bind]
      apply congrArg Except.ok
      rw [← String.toList_inj]
      simp [TypeSpec.tree, ConcreteType.text, treeOption]
    | weak =>
      rw [TypeSpec.Resolved] at h
      obtain ⟨weakTarget, rfl⟩ := Option.isSome_iff_exists.mp h.1
      simp only [canonicalConcreteTypeKey, htarget weakTarget rfl h.2, ok_bind]
      apply congrArg Except.ok
      rw [← String.toList_inj]
      simp [TypeSpec.tree, ConcreteType.text, treeOption]
    | named | record | variant =>
      obtain ⟨index, rfl, rfl⟩ := h
      exact congrArg Except.ok (nominalKey_eq_text _ _ _)

theorem componentKey_eq_text : ∀ component : Option TypeSpec, ∀ type, component = some type →
    type.Resolved names →
    canonicalConcreteTypeKey type = .ok (String.ofList (type.tree.text names))
  | none, _, h, _ => nomatch h
  | some type, _, h, hresolved => by
    cases h
    exact key_eq_text type hresolved

theorem parameterKeys_eq_text : ∀ types : List TypeSpec, ResolvedList names types →
    functionParameterKeys types = .ok (String.ofList (parametersText names (treeList types)))
  | [], _ => rfl
  | type :: types, h => by
    rw [ResolvedList] at h
    rw [functionParameterKeys, key_eq_text type h.1, ok_bind, parameterKeys_eq_text types h.2,
      ok_bind]
    apply congrArg Except.ok
    rw [← String.toList_inj]
    simp [treeList, parametersText]

end

/-! ## The text of a tree can be read back -/

theorem nominalText_inj {tag : Char} {names : ℕ → String} {index index' : ℕ}
    {rest rest' : List Char}
    (h : nominalText tag index (names index) ++ rest =
      nominalText tag index' (names index') ++ rest') : index = index' ∧ rest = rest' := by
  simp only [nominalText, List.cons_append, List.append_assoc] at h
  have hdigits := readsBack_toDigits ':' (by decide) index index' _ _
    (by simpa using (List.cons.inj h).2)
  obtain ⟨rfl, htail⟩ := hdigits
  exact ⟨rfl, by simpa using htail⟩

mutual

theorem text_readsBack : ∀ type : ConcreteType, ReadsBack (ConcreteType.text names) type
  | .int64, type', _, _, h | .bool, type', _, _, h | .str, type', _, _, h
  | .builder, type', _, _, h | .opaquePair, type', _, _, h => by
    cases type' <;> simp [ConcreteType.text, nominalText] at h ⊢
    exact h
  | .array element, type', _, _, h => by
    have hread := text_readsBack element
    cases type' <;> simp [ConcreteType.text, nominalText] at h ⊢
    obtain ⟨hinner, hrest⟩ := hread _ _ _ h
    exact ⟨hinner, (List.cons.inj hrest).2⟩
  | .weak target, type', _, _, h => by
    have hread := text_readsBack target
    cases type' <;> simp [ConcreteType.text, nominalText] at h ⊢
    obtain ⟨hinner, hrest⟩ := hread _ _ _ h
    exact ⟨hinner, (List.cons.inj hrest).2⟩
  | .pair left right, type', _, _, h => by
    have hleft := text_readsBack left
    have hright := text_readsBack right
    cases type' <;> simp [ConcreteType.text, nominalText] at h ⊢
    obtain ⟨hfirst, htail⟩ := hleft _ _ _ h
    obtain ⟨hsecond, hrest⟩ := hright _ _ _ (by simpa using htail)
    exact ⟨⟨hfirst, hsecond⟩, by simpa using hrest⟩
  | .map key value, type', _, _, h => by
    have hkey := text_readsBack key
    have hvalue := text_readsBack value
    cases type' <;> simp [ConcreteType.text, nominalText] at h ⊢
    obtain ⟨hfirst, htail⟩ := hkey _ _ _ h
    obtain ⟨hsecond, hrest⟩ := hvalue _ _ _ (by simpa using htail)
    exact ⟨⟨hfirst, hsecond⟩, by simpa using hrest⟩
  | .ephemeron key value, type', _, _, h => by
    have hkey := text_readsBack key
    have hvalue := text_readsBack value
    cases type' <;> simp [ConcreteType.text, nominalText] at h ⊢
    obtain ⟨hfirst, htail⟩ := hkey _ _ _ h
    obtain ⟨hsecond, hrest⟩ := hvalue _ _ _ (by simpa using htail)
    exact ⟨⟨hfirst, hsecond⟩, by simpa using hrest⟩
  | .function parameters result, type', _, _, h => by
    have hparameters := parametersText_readsBack parameters
    have hresult := text_readsBack result
    cases type' <;> simp [ConcreteType.text, nominalText] at h ⊢
    obtain ⟨hlength, htail⟩ := readsBack_toDigits '[' (by decide) _ _ _ _
      (by simpa using h)
    obtain ⟨hfirst, htail⟩ := hparameters _ _ _ hlength htail
    obtain ⟨hsecond, hrest⟩ := hresult _ _ _ (by simpa using htail)
    exact ⟨⟨hfirst, hsecond⟩, by simpa using hrest⟩
  | .named index, type', _, _, h | .record index, type', _, _, h
  | .variant index, type', _, _, h => by
    cases type' <;> simp only [ConcreteType.text] at h ⊢
    all_goals first
      | exact absurd (List.cons.inj h).1 (by decide)
      | simpa using nominalText_inj h

theorem parametersText_readsBack : ∀ types types' : List ConcreteType, ∀ rest rest',
    types.length = types'.length →
    parametersText names types ++ rest = parametersText names types' ++ rest' →
    types = types' ∧ rest = rest'
  | [], [], _, _, _, h => ⟨rfl, h⟩
  | [], _ :: _, _, _, hlength, _ => nomatch hlength
  | _ :: _, [], _, _, hlength, _ => nomatch hlength
  | type :: types, type' :: types', _, _, hlength, h => by
    simp only [parametersText, List.append_assoc, List.cons_append] at h
    obtain ⟨hhead, htext⟩ := text_readsBack type type' _ _ h
    obtain ⟨htail, hrest⟩ := parametersText_readsBack types types' _ _ (Nat.succ.inj hlength)
      (List.cons.inj htext).2
    exact ⟨congrArg₂ List.cons hhead htail, hrest⟩

end

/-! ## Tuples -/

/-- The text of a type in a tuple: its size, a colon and its key. -/
def tupleEntryText (names : NominalNames) (type : ConcreteType) : List Char :=
  Nat.toDigits 10 (String.ofList (type.text names)).utf8ByteSize ++ ':' :: type.text names

theorem tupleEntryText_readsBack (type : ConcreteType) :
    ReadsBack (tupleEntryText names) type := by
  intro type' rest rest' h
  have hsize := readsBack_toDigits ':' (by decide)
    (String.ofList (type.text names)).utf8ByteSize
    (String.ofList (type'.text names)).utf8ByteSize (type.text names ++ rest)
    (type'.text names ++ rest') (by simpa [tupleEntryText] using h)
  exact text_readsBack type type' rest rest' hsize.2

theorem resolvedList_iff {types : List TypeSpec} :
    ResolvedList names types ↔ ∀ type ∈ types, type.Resolved names := by
  induction types with
  | nil => simp [ResolvedList]
  | cons type types ih => rw [ResolvedList, ih, List.forall_mem_cons]

/-- The key of a tuple of resolved types is made from their trees. -/
theorem tupleKey_eq_text {arguments : List TypeSpec}
    (h : ∀ type ∈ arguments, type.Resolved names) :
    canonicalTypeArgumentTupleKey arguments = .ok (String.ofList ('T' ::
      (Nat.toDigits 10 (treeList arguments).length ++ ':' ::
        (treeList arguments).flatMap (tupleEntryText names)))) := by
  have hkeys : typeArgumentKeys arguments =
      .ok (String.ofList ((treeList arguments).flatMap (tupleEntryText names))) := by
    induction arguments with
    | nil => rfl
    | cons type types ih =>
      rw [List.forall_mem_cons] at h
      rw [typeArgumentKeys, key_eq_text type h.1, ok_bind, ih h.2, ok_bind]
      apply congrArg Except.ok
      rw [← String.toList_inj]
      simp [treeList, tupleEntryText]
  rw [canonicalTypeArgumentTupleKey, hkeys, ok_bind]
  apply congrArg Except.ok
  rw [← String.toList_inj]
  simp [length_treeList]

/-- Two tuples have one key exactly when they have one list of trees. -/
theorem tupleKey_eq_iff {arguments arguments' : List TypeSpec} {key key' : String}
    (h : ∀ type ∈ arguments, type.Resolved names)
    (h' : ∀ type ∈ arguments', type.Resolved names)
    (hkey : canonicalTypeArgumentTupleKey arguments = .ok key)
    (hkey' : canonicalTypeArgumentTupleKey arguments' = .ok key') :
    key = key' ↔ equalsList arguments arguments' = true := by
  rw [equalsList_iff_tree arguments arguments' (resolvedList_iff.mpr h) (resolvedList_iff.mpr h')]
  rw [tupleKey_eq_text h] at hkey
  rw [tupleKey_eq_text h'] at hkey'
  rw [← Except.ok.inj hkey, ← Except.ok.inj hkey', String.ofList_inj]
  constructor
  · intro htext
    -- the size comes first, and with it the number of entries is known
    obtain ⟨hlength, hentries⟩ := readsBack_toDigits ':' (by decide) _ _ _ _
      (by simpa using htext)
    exact (ReadsBack.flatMap (fun type _ => tupleEntryText_readsBack type) hlength
      (congrArg (· ++ []) hentries)).1
  · intro htrees
    rw [htrees]

/-- Two tuples of resolved types have the same canonical key exactly when they are equal, and
so the search for an instance by its key is the search for one with equal arguments. -/
theorem canonical_keys_injective (names : NominalNames) :
    (∀ arguments arguments' : List TypeSpec, (∀ type ∈ arguments, type.Resolved names) →
      (∀ type ∈ arguments', type.Resolved names) →
      ∃ key key', canonicalTypeArgumentTupleKey arguments = .ok key ∧
        canonicalTypeArgumentTupleKey arguments' = .ok key' ∧
        (key = key' ↔ equalsList arguments arguments' = true)) ∧
    ∀ (instantiations : List GenericInstantiation) (genericIndex : ℕ)
      (arguments : List TypeSpec), (∀ type ∈ arguments, type.Resolved names) →
      (∀ instantiation ∈ instantiations,
        (∀ type ∈ instantiation.arguments, type.Resolved names) ∧
        canonicalTypeArgumentTupleKey instantiation.arguments = .ok instantiation.key) →
      findInstantiation instantiations genericIndex arguments =
        .ok (instantiations.find? fun instantiation =>
          instantiation.genericIndex = genericIndex &&
            equalsList instantiation.arguments arguments) := by
  constructor
  · intro arguments arguments' h h'
    exact ⟨_, _, tupleKey_eq_text h, tupleKey_eq_text h',
      tupleKey_eq_iff h h' (tupleKey_eq_text h) (tupleKey_eq_text h')⟩
  · intro instantiations genericIndex arguments h hinstantiations
    rw [findInstantiation, tupleKey_eq_text h, ok_bind]
    apply congrArg Except.ok
    apply List.find?_congr
    intro instantiation hmem
    obtain ⟨hresolved, hkey⟩ := hinstantiations instantiation hmem
    have heq := tupleKey_eq_iff hresolved h hkey (tupleKey_eq_text h)
    rw [Bool.eq_iff_iff]
    simp only [Bool.and_eq_true, decide_eq_true_eq, heq]

/-- `list<i64>`, the first instance of a generic record, and an array of it. -/
def listOfInt64 : TypeSpec :=
  { kind := .record, name := "list", recordLayoutIndex := some 0,
    genericArguments := [int64Type], genericDeclarationIndex := some 0 }

theorem canonical_keys_injective_records :
    (∃ key key', canonicalTypeArgumentTupleKey [listOfInt64, int64Type] = .ok key ∧
      canonicalTypeArgumentTupleKey [{ kind := .array, element := some listOfInt64 }] =
        .ok key' ∧ key ≠ key') ∧
    findInstantiation [⟨"T1:9:R0:4:list", 3, [listOfInt64]⟩] 3 [listOfInt64] =
      .ok (some ⟨"T1:9:R0:4:list", 3, [listOfInt64]⟩) := by
  have hkeys := canonical_keys_injective ⟨fun _ => "pair", fun _ => "list", fun _ => "option"⟩
  constructor
  · obtain ⟨key, key', hkey, hkey', hiff⟩ := hkeys.1 [listOfInt64, int64Type]
      [{ kind := .array, element := some listOfInt64 }]
      (by simp [listOfInt64, int64Type, TypeSpec.Resolved])
      (by simp [listOfInt64, TypeSpec.Resolved, ResolvedOption])
    exact ⟨key, key', hkey, hkey', fun h => by cases hiff.mp h⟩
  · rw [hkeys.2 _ _ _ (by simp [listOfInt64, TypeSpec.Resolved])]
    · rfl
    · intro instantiation hinstantiation
      rw [List.mem_singleton.mp hinstantiation]
      exact ⟨by simp [listOfInt64, TypeSpec.Resolved], by decide⟩

end LanguageRuntime.Frontend
