import LanguageRuntime.Bytecode.TerminationTheorems
import LanguageRuntime.Bytecode.TreeTheorems

/-!
# Joined states

A join of states joins them place by place and reports a change when there is one. Where the
facts of all places join well, it describes the frames that either state describes.
-/

namespace LanguageRuntime.Bytecode

open LanguageRuntime.Library

/-! ## Place by place -/

/-- A local that both states know about. -/
def joinLocals : Option AbstractValue → Option AbstractValue → Option AbstractValue
  | some lhs, some rhs => some (joinValues lhs rhs)
  | _, _ => none

/-- A state that joins two others place by place. -/
structure JoinsPlaces (existing incoming joined : AbstractState) : Prop where
  stack : joined.stack = List.zipWith joinValues existing.stack incoming.stack
  locals : joined.locals = List.zipWith joinLocals existing.locals incoming.locals
  kinds : joined.localReferenceKinds =
    List.zipWith Option.or existing.localReferenceKinds incoming.localReferenceKinds
  fields : joined.fieldsBySite =
    List.zipWith (joinPointers joinPairFields) existing.fieldsBySite incoming.fieldsBySite
  elements : joined.refArrayElementsBySite =
    List.zipWith (joinPointers joinRefArrayElementValues) existing.refArrayElementsBySite
      incoming.refArrayElementsBySite

/-- Two states of one function: their tables have an entry for each of its pcs. -/
structure SameSites (existing incoming : AbstractState) : Prop where
  fields : existing.fieldsBySite.length = incoming.fieldsBySite.length
  elements : existing.refArrayElementsBySite.length = incoming.refArrayElementsBySite.length

section Entries

variable {α : Type} {join : α → α → α × Bool}

theorem joinEntries_fst {f : α → α → α} (h : ∀ a b, (join a b).1 = f a b) :
    ∀ {lhs rhs : List α}, lhs.length = rhs.length →
      (joinEntries join lhs rhs).1 = List.zipWith f lhs rhs
  | [], [], _ => rfl
  | a :: lhs, b :: rhs, hlength => by
    have htail := joinEntries_fst h (Nat.succ.inj hlength)
    rw [joinEntries, List.zipWith_cons_cons, ← h a b, ← htail]
  | [], _ :: _, hlength => nomatch hlength
  | _ :: _, [], hlength => nomatch hlength

/-- A join of tables reports a change when an entry changed. -/
theorem joinEntries_snd (h : ∀ a b, (join a b).2 = true ↔ (join a b).1 ≠ a) :
    ∀ lhs rhs : List α, (joinEntries join lhs rhs).2 = true ↔ (joinEntries join lhs rhs).1 ≠ lhs
  | [], _ => ⟨nofun, fun hne => absurd rfl hne⟩
  | _ :: _, [] => ⟨nofun, fun hne => absurd rfl hne⟩
  | a :: lhs, b :: rhs => by
    have htail := joinEntries_snd h lhs rhs
    have hhead := h a b
    rw [joinEntries]
    dsimp only
    rw [Bool.or_eq_true, hhead, htail, ne_eq, ne_eq, ne_eq, List.cons.injEq, not_and_or]

theorem joinValueInto_fst (lhs rhs : AbstractValue) :
    (joinValueInto lhs rhs).1 = joinValues lhs rhs := by
  unfold joinValueInto
  dsimp only
  split
  case isTrue heq => exact heq.symm
  case isFalse => rfl

theorem joinValueInto_snd (lhs rhs : AbstractValue) :
    (joinValueInto lhs rhs).2 = true ↔ (joinValueInto lhs rhs).1 ≠ lhs := by
  unfold joinValueInto
  dsimp only
  split
  case isTrue => exact ⟨nofun, fun hne => absurd rfl hne⟩
  case isFalse hne => exact ⟨fun _ => hne, fun _ => rfl⟩

theorem joinRefArrayElementInto_fst (lhs rhs : AbstractValue) :
    (joinRefArrayElementInto lhs rhs).1 = joinRefArrayElementValues lhs rhs := by
  unfold joinRefArrayElementInto
  dsimp only
  split
  case isTrue heq => exact heq.symm
  case isFalse => rfl

theorem joinRefArrayElementInto_snd (lhs rhs : AbstractValue) :
    (joinRefArrayElementInto lhs rhs).2 = true ↔ (joinRefArrayElementInto lhs rhs).1 ≠ lhs := by
  unfold joinRefArrayElementInto
  dsimp only
  split
  case isTrue => exact ⟨nofun, fun hne => absurd rfl hne⟩
  case isFalse hne => exact ⟨fun _ => hne, fun _ => rfl⟩

theorem joinLocalInto_fst (lhs rhs : Option AbstractValue) :
    (joinLocalInto lhs rhs).1 = joinLocals lhs rhs := by
  match lhs, rhs with
  | some lhs, some rhs => exact congrArg some (joinValueInto_fst lhs rhs)
  | some _, none => rfl
  | none, _ => rfl

theorem joinLocalInto_snd (lhs rhs : Option AbstractValue) :
    (joinLocalInto lhs rhs).2 = true ↔ (joinLocalInto lhs rhs).1 ≠ lhs := by
  match lhs, rhs with
  | some lhs, some rhs =>
    rw [joinLocalInto]
    dsimp only
    rw [joinValueInto_snd, ne_eq, ne_eq, Option.some.injEq]
  | some _, none => exact ⟨fun _ => nofun, fun _ => rfl⟩
  | none, _ => exact ⟨nofun, fun hne => absurd rfl hne⟩

theorem joinReferenceKindInto_fst (lhs rhs : Option Bool) :
    (joinReferenceKindInto lhs rhs).1 = lhs.or rhs := by
  cases lhs <;> cases rhs <;> rfl

theorem joinReferenceKindInto_snd (lhs rhs : Option Bool) :
    (joinReferenceKindInto lhs rhs).2 = true ↔ (joinReferenceKindInto lhs rhs).1 ≠ lhs := by
  cases lhs <;> cases rhs <;> simp [joinReferenceKindInto]

theorem joinFieldsInto_fst (lhs rhs : Option PairFields) :
    (joinFieldsInto lhs rhs).1 = joinPointers joinPairFields lhs rhs := by
  match lhs, rhs with
  | some lhs, some rhs =>
    rw [joinFieldsInto]
    dsimp only
    rw [joinValueInto_fst, joinValueInto_fst]
    rfl
  | some _, none => rfl
  | none, some _ => rfl
  | none, none => rfl

theorem joinFieldsInto_snd (lhs rhs : Option PairFields) :
    (joinFieldsInto lhs rhs).2 = true ↔ (joinFieldsInto lhs rhs).1 ≠ lhs := by
  match lhs, rhs with
  | some ⟨left, right⟩, some rhs =>
    rw [joinFieldsInto]
    dsimp only
    rw [Bool.or_eq_true, joinValueInto_snd, joinValueInto_snd, ne_eq, ne_eq, ne_eq,
      Option.some.injEq, Fields.mk.injEq, not_and_or]
  | some _, none => exact ⟨(fun hlost => by cases hlost), fun hne => absurd rfl hne⟩
  | none, some _ => exact ⟨(fun _ hno => by cases hno), fun _ => rfl⟩
  | none, none => exact ⟨(fun hlost => by cases hlost), fun hne => absurd rfl hne⟩

theorem joinElementInto_fst (lhs rhs : Option AbstractValue) :
    (joinElementInto lhs rhs).1 = joinPointers joinRefArrayElementValues lhs rhs := by
  match lhs, rhs with
  | some lhs, some rhs => exact congrArg some (joinRefArrayElementInto_fst lhs rhs)
  | some _, none => rfl
  | none, some _ => rfl
  | none, none => rfl

theorem joinElementInto_snd (lhs rhs : Option AbstractValue) :
    (joinElementInto lhs rhs).2 = true ↔ (joinElementInto lhs rhs).1 ≠ lhs := by
  match lhs, rhs with
  | some lhs, some rhs =>
    rw [joinElementInto]
    dsimp only
    rw [joinRefArrayElementInto_snd, ne_eq, ne_eq, Option.some.injEq]
  | some _, none => exact ⟨(fun hlost => by cases hlost), fun hne => absurd rfl hne⟩
  | none, some _ => exact ⟨(fun _ hno => by cases hno), fun _ => rfl⟩
  | none, none => exact ⟨(fun hlost => by cases hlost), fun hne => absurd rfl hne⟩

end Entries

section States

variable {existing incoming joined : AbstractState} {changed : Bool}

theorem lengths_of_joinStateInto (h : joinStateInto existing incoming = some (joined, changed)) :
    existing.stack.length = incoming.stack.length ∧
      existing.locals.length = incoming.locals.length ∧
      existing.localReferenceKinds.length = incoming.localReferenceKinds.length := by
  unfold joinStateInto at h
  split at h
  case isTrue => exact nomatch h
  case isFalse hlength =>
    rw [not_or, not_or, not_not, not_not, not_not] at hlength
    exact hlength

theorem joinsPlaces_of_joinStateInto (hsites : SameSites existing incoming)
    (h : joinStateInto existing incoming = some (joined, changed)) :
    JoinsPlaces existing incoming joined := by
  obtain ⟨hstack, hlocals, hkinds⟩ := lengths_of_joinStateInto h
  obtain ⟨rfl, -⟩ := joinStateInto_eq h
  exact ⟨joinEntries_fst joinValueInto_fst hstack, joinEntries_fst joinLocalInto_fst hlocals,
    joinEntries_fst joinReferenceKindInto_fst hkinds, joinEntries_fst joinFieldsInto_fst hsites.fields,
    joinEntries_fst joinElementInto_fst hsites.elements⟩

/-- A join of states reports a change exactly when it is not the state that was there. -/
theorem changed_iff (h : joinStateInto existing incoming = some (joined, changed)) :
    changed = true ↔ joined ≠ existing := by
  obtain ⟨rfl, rfl⟩ := joinStateInto_eq h
  have hstack := joinEntries_snd joinValueInto_snd existing.stack incoming.stack
  have hlocals := joinEntries_snd joinLocalInto_snd existing.locals incoming.locals
  have hkinds := joinEntries_snd joinReferenceKindInto_snd existing.localReferenceKinds
    incoming.localReferenceKinds
  have hfields := joinEntries_snd joinFieldsInto_snd existing.fieldsBySite incoming.fieldsBySite
  have helements := joinEntries_snd joinElementInto_snd existing.refArrayElementsBySite
    incoming.refArrayElementsBySite
  rw [Bool.or_eq_true, Bool.or_eq_true, Bool.or_eq_true, Bool.or_eq_true, hstack, hlocals, hkinds,
    hfields, helements]
  obtain ⟨stack, locals, kinds, fields, elements⟩ := existing
  simp only [ne_eq, AbstractState.mk.injEq]
  tauto

end States

/-! ## Frames -/

/-- The values of a frame; a local may hold none yet. -/
structure Frame (V : Type) where
  stack : List V
  locals : List (Option V)

/-- A state describes a frame, and the objects of the sites it knows about. -/
structure DescribesFrame {V : Type} (W : World V) (state : AbstractState) (frame : Frame V) :
    Prop where
  stack : List.Forall₂ (Describes W) state.stack frame.stack
  locals : ∀ (i : ℕ) fact, state.locals[i]? = some (some fact) →
    ∃ v, frame.locals[i]? = some (some v) ∧ Describes W fact v
  fields : ∀ site v a b, W.objectSite site v → W.hasFields v a b →
    ∃ fields, state.fieldsBySite[site]? = some (some fields) ∧ Describes W fields.left a ∧
      Describes W fields.right b
  elements : ∀ site v a, W.arraySite site v → W.hasElement v a →
    ∃ element, state.refArrayElementsBySite[site]? = some (some element) ∧ Describes W element a

/-- What two states know about one place joins well. -/
def bothWell {α : Type} (well : α → α → Bool) : Option α → Option α → Bool
  | some lhs, some rhs => well lhs rhs
  | _, _ => true

/-- Two tables join well at every entry. -/
def tablesWell {α : Type} (well : α → α → Bool) (lhs rhs : List α) : Bool :=
  (lhs.zip rhs).all fun (left, right) => well left right

def pairsWell (lhs rhs : PairFields) : Bool :=
  joinsWell lhs.left rhs.left && joinsWell lhs.right rhs.right

/-- The facts of two states join well at every place. -/
def statesWell (existing incoming : AbstractState) : Bool :=
  tablesWell joinsWell existing.stack incoming.stack &&
    tablesWell (bothWell joinsWell) existing.locals incoming.locals &&
    tablesWell (bothWell pairsWell) existing.fieldsBySite incoming.fieldsBySite &&
    tablesWell (bothWell joinsWell) existing.refArrayElementsBySite
      incoming.refArrayElementsBySite

section Frames

variable {V : Type} {W : World V} {sites size depth : ℕ} {lhs rhs : AbstractValue} {v : V}

/-- Facts that join well: the join describes what either one describes. -/
theorem Fact.describes_join_or (hl : Fact sites size depth lhs) (hr : Fact sites size depth rhs)
    (hwell : joinsWell lhs rhs = true) (h : Describes W lhs v ∨ Describes W rhs v) :
    Describes W (joinValues lhs rhs) v := by
  simp only [joinsWell, Bool.and_eq_true] at hwell
  rcases h with h | h
  · exact hl.describes_join hr hwell.1.1.1 h
  · rw [hl.joinValues_comm hr]
    exact hr.describes_join hl hwell.1.1.2 h

/-- What a fact about the elements of a reference array describes is a reference. -/
theorem reference_of_elementFact {fact : AbstractValue} (h : ElementFact sites size depth fact)
    (hkind : isReferenceKind fact.kind = true) (hshape : HasShape W fact v) : W.isReference v := by
  have hnil := h.nonnil
  cases heq : fact.kind
  case object =>
    rcases reference_of_hasShape heq hshape with hv | hv
    · rw [hnil] at hv
      cases (hv.1)
    · exact hv
  case record =>
    rw [hasShape_record heq, hnil] at hshape
    rcases hshape with hv | hv
    · cases (hv.1)
    · exact W.reference_of_kind _ v rfl hv.1
  case variant =>
    rw [hasShape_variant heq, hnil] at hshape
    rcases hshape with hv | hv
    · cases (hv.1)
    · exact W.reference_of_kind _ v rfl hv.1
  case refArray =>
    rw [hasShape_refArray heq] at hshape
    rcases hshape with ⟨site, -, hv⟩ | hv
    · exact W.reference_of_kind _ v rfl (W.kind_of_arraySite site v hv)
    · cases helement : fact.signatureArrayElement with
      | none =>
        rw [helement, ElementDescribes] at hv
        exact hv.elim
      | some element =>
        rw [helement, elementDescribes_some] at hv
        exact W.reference_of_kind _ v rfl hv.1
  case maybeReference => exact absurd heq h.plain.kind_ne
  case function =>
    rw [hasShape_function heq] at hshape
    exact W.reference_of_kind _ v rfl hshape.1
  case map =>
    rw [hasShape_entries (.inl rfl) heq] at hshape
    exact W.reference_of_kind _ v rfl hshape.1
  case ephemeron =>
    rw [hasShape_entries (.inr rfl) heq] at hshape
    exact W.reference_of_kind _ v rfl hshape.1
  case weak =>
    rw [hasShape_weak heq] at hshape
    exact W.reference_of_kind _ v rfl hshape.1
  case array | str | builder =>
    rw [hasShape_simple (by simp) heq] at hshape
    exact W.reference_of_kind _ v rfl hshape
  all_goals
    rw [heq] at hkind
    cases hkind

/-- The same of the elements of a reference array, which fall back to any reference. -/
theorem describes_joinElements (hl : ElementFact sites size depth lhs)
    (hr : ElementFact sites size depth rhs) (hwell : joinsWell lhs rhs = true)
    (h : Describes W lhs v ∨ Describes W rhs v) :
    Describes W (joinRefArrayElementValues lhs rhs) v := by
  have hjoined := (Fact.plain hl.plain).describes_join_or (.plain hr.plain) hwell h
  unfold joinRefArrayElementValues
  dsimp only
  split
  · exact hjoined
  · split
    · exact hjoined
    · split
      case isTrue hkinds =>
        rw [Bool.and_eq_true] at hkinds
        refine ⟨?_, hasOrigins_of_bare ⟨rfl, rfl⟩⟩
        rw [hasShape_object rfl]
        refine .inr (.inr (.inl ⟨rfl, ?_⟩))
        rcases h with h | h
        · exact reference_of_elementFact hl hkinds.1 h.1
        · exact reference_of_elementFact hr hkinds.2 h.1
      case isFalse => exact hjoined

theorem forall₂_zipWith_left {α : Type} {R : α → V → Prop} {f : α → α → α} {as bs : List α}
    {vs : List V} (hlength : as.length = bs.length) (h : List.Forall₂ R as vs)
    (hjoin : ∀ p ∈ as.zip bs, ∀ v, R p.1 v → R (f p.1 p.2) v) :
    List.Forall₂ R (List.zipWith f as bs) vs := by
  induction h generalizing bs with
  | nil => exact .nil
  | @cons a v as vs ha _ ih =>
    cases bs with
    | nil => exact nomatch hlength
    | cons b bs =>
      apply List.Forall₂.cons
      · exact hjoin (a, b) List.mem_cons_self v ha
      · exact ih (Nat.succ.inj hlength) fun p hp => hjoin p (List.mem_cons_of_mem _ hp)

theorem forall₂_zipWith_right {α : Type} {R : α → V → Prop} {f : α → α → α} {as bs : List α}
    {vs : List V} (hlength : as.length = bs.length) (h : List.Forall₂ R bs vs)
    (hjoin : ∀ p ∈ as.zip bs, ∀ v, R p.2 v → R (f p.1 p.2) v) :
    List.Forall₂ R (List.zipWith f as bs) vs := by
  induction h generalizing as with
  | nil =>
    rw [List.zipWith_nil_right]
    exact .nil
  | @cons b v bs vs hb _ ih =>
    cases as with
    | nil => exact nomatch hlength
    | cons a as =>
      apply List.Forall₂.cons
      · exact hjoin (a, b) List.mem_cons_self v hb
      · exact ih (Nat.succ.inj hlength) fun p hp => hjoin p (List.mem_cons_of_mem _ hp)

theorem tablesWell_at {α : Type} {well : α → α → Bool} {lhs rhs : List α} {i : ℕ} {a b : α}
    (h : tablesWell well lhs rhs = true) (ha : lhs[i]? = some a) (hb : rhs[i]? = some b) :
    well a b = true := by
  rw [tablesWell, List.all_eq_true] at h
  have hmem : (a, b) ∈ lhs.zip rhs := by
    apply List.mem_of_getElem? (i := i)
    rw [List.getElem?_zip_eq_some]
    exact ⟨ha, hb⟩
  exact h (a, b) hmem

/-- What a table says of an entry, and what its join with another says. -/
theorem exists_zipWith {α : Type} {P : α → Prop} {f : α → α → α} {as bs : List α} {i : ℕ}
    (hlength : as.length = bs.length)
    (h : (∃ a, as[i]? = some a ∧ P a) ∨ ∃ b, bs[i]? = some b ∧ P b) :
    ∃ a b, as[i]? = some a ∧ bs[i]? = some b ∧ (P a ∨ P b) ∧
      (List.zipWith f as bs)[i]? = some (f a b) := by
  have hlt : i < as.length ∧ i < bs.length := by
    rcases h with ⟨a, ha, -⟩ | ⟨b, hb, -⟩
    · have hlt := List.getElem?_eq_some_iff.mp ha
      exact ⟨hlt.1, hlength ▸ hlt.1⟩
    · have hlt := List.getElem?_eq_some_iff.mp hb
      exact ⟨hlength ▸ hlt.1, hlt.1⟩
  have ha : as[i]? = some as[i] := List.getElem?_eq_getElem hlt.1
  have hb : bs[i]? = some bs[i] := List.getElem?_eq_getElem hlt.2
  refine ⟨as[i], bs[i], ha, hb, ?_, ?_⟩
  · rcases h with ⟨a, ha', hP⟩ | ⟨b, hb', hP⟩
    · rw [ha] at ha'
      cases ha'
      exact .inl hP
    · rw [hb] at hb'
      cases hb'
      exact .inr hP
  · rw [List.getElem?_zipWith, ha, hb]

/-- An optional entry joined with another: a property that joins keep of both, and that each one
has where it is there, the join has. -/
theorem exists_joinPointers {α : Type} {D : α → Prop} {join : α → α → α} {lhs rhs : Option α}
    (hjoin : ∀ a b, lhs = some a → rhs = some b → D a ∨ D b → D (join a b))
    (h : (∃ a, lhs = some a ∧ D a) ∨ ∃ b, rhs = some b ∧ D b) :
    ∃ c, joinPointers join lhs rhs = some c ∧ D c := by
  cases lhs with
  | none =>
    rcases h with ⟨a, ha, -⟩ | ⟨b, hb, hD⟩
    · exact nomatch ha
    · exact ⟨b, hb, hD⟩
  | some a =>
    cases rhs with
    | none =>
      rcases h with ⟨a', ha, hD⟩ | ⟨b, hb, -⟩
      · exact ⟨a', ha, hD⟩
      · exact nomatch hb
    | some b =>
      refine ⟨join a b, rfl, hjoin a b rfl rfl ?_⟩
      rcases h with ⟨a', ha, hD⟩ | ⟨b', hb, hD⟩
      · cases ha
        exact .inl hD
      · cases hb
        exact .inr hD

variable {existing incoming joined : AbstractState} {frame : Frame V}

theorem describes_joined_stack (hl : StateFacts sites size depth existing)
    (hr : StateFacts sites size depth incoming)
    (hlength : existing.stack.length = incoming.stack.length)
    (hwell : tablesWell joinsWell existing.stack incoming.stack = true)
    (h : List.Forall₂ (Describes W) existing.stack frame.stack ∨
      List.Forall₂ (Describes W) incoming.stack frame.stack) :
    List.Forall₂ (Describes W) (List.zipWith joinValues existing.stack incoming.stack)
      frame.stack := by
  have hjoin : ∀ p ∈ existing.stack.zip incoming.stack, ∀ v,
      Describes W p.1 v ∨ Describes W p.2 v → Describes W (joinValues p.1 p.2) v := by
    rintro ⟨a, b⟩ hp v hv
    obtain ⟨ha, hb⟩ := List.of_mem_zip hp
    rw [tablesWell, List.all_eq_true] at hwell
    exact (hl.stack a ha).describes_join_or (hr.stack b hb) (hwell (a, b) hp) hv
  rcases h with h | h
  · exact forall₂_zipWith_left hlength h fun p hp v hv => hjoin p hp v (.inl hv)
  · exact forall₂_zipWith_right hlength h fun p hp v hv => hjoin p hp v (.inr hv)

theorem joinLocals_eq_some {lhs rhs : Option AbstractValue} {fact : AbstractValue}
    (h : joinLocals lhs rhs = some fact) :
    ∃ a b, lhs = some a ∧ rhs = some b ∧ fact = joinValues a b := by
  unfold joinLocals at h
  split at h
  case h_1 a b =>
    cases h
    exact ⟨a, b, rfl, rfl, rfl⟩
  case h_2 => cases h

theorem describes_joined_locals (hl : StateFacts sites size depth existing)
    (hr : StateFacts sites size depth incoming)
    (hwell : tablesWell (bothWell joinsWell) existing.locals incoming.locals = true)
    (h : DescribesFrame W existing frame ∨ DescribesFrame W incoming frame) {i : ℕ}
    {fact : AbstractValue}
    (hfact : (List.zipWith joinLocals existing.locals incoming.locals)[i]? = some (some fact)) :
    ∃ v, frame.locals[i]? = some (some v) ∧ Describes W fact v := by
  rw [List.getElem?_zipWith_eq_some] at hfact
  obtain ⟨a, b, ha, hb, heq⟩ := hfact
  obtain ⟨lhs, rhs, rfl, rfl, rfl⟩ := joinLocals_eq_some heq
  have hplace : bothWell joinsWell (some lhs) (some rhs) = true := tablesWell_at hwell ha hb
  have hjoin {v : V} (hv : Describes W lhs v ∨ Describes W rhs v) :
      Describes W (joinValues lhs rhs) v :=
    (hl.locals lhs (List.mem_of_getElem? ha)).describes_join_or
      (hr.locals rhs (List.mem_of_getElem? hb)) hplace hv
  rcases h with h | h
  · obtain ⟨v, hv, hdescribes⟩ := h.locals i lhs ha
    exact ⟨v, hv, hjoin (.inl hdescribes)⟩
  · obtain ⟨v, hv, hdescribes⟩ := h.locals i rhs hb
    exact ⟨v, hv, hjoin (.inr hdescribes)⟩

theorem describes_joined_fields (hl : StateFacts sites size depth existing)
    (hr : StateFacts sites size depth incoming) (hsites : SameSites existing incoming)
    (hwell : tablesWell (bothWell pairsWell) existing.fieldsBySite incoming.fieldsBySite = true)
    {site : ℕ} {a b : V}
    (h : (∃ fields, existing.fieldsBySite[site]? = some (some fields) ∧
        Describes W fields.left a ∧ Describes W fields.right b) ∨
      ∃ fields, incoming.fieldsBySite[site]? = some (some fields) ∧
        Describes W fields.left a ∧ Describes W fields.right b) :
    ∃ fields, (List.zipWith (joinPointers joinPairFields) existing.fieldsBySite
        incoming.fieldsBySite)[site]? = some (some fields) ∧
      Describes W fields.left a ∧ Describes W fields.right b := by
  let D : PairFields → Prop := fun fields => Describes W fields.left a ∧ Describes W fields.right b
  have hentry : (∃ e, existing.fieldsBySite[site]? = some e ∧ ∃ f, e = some f ∧ D f) ∨
      ∃ e, incoming.fieldsBySite[site]? = some e ∧ ∃ f, e = some f ∧ D f :=
    h.imp (fun ⟨f, hf, hD⟩ => ⟨some f, hf, f, rfl, hD⟩) fun ⟨f, hf, hD⟩ =>
      ⟨some f, hf, f, rfl, hD⟩
  obtain ⟨lhs, rhs, hlhs, hrhs, heither, hjoined⟩ := exists_zipWith hsites.fields hentry
  have hdescribes : ∃ f, joinPointers joinPairFields lhs rhs = some f ∧ D f := by
    apply exists_joinPointers _ heither
    rintro f g rfl rfl hfg
    obtain ⟨hleft, hright⟩ := hl.fields f (List.mem_of_getElem? hlhs)
    obtain ⟨hleft', hright'⟩ := hr.fields g (List.mem_of_getElem? hrhs)
    have hboth : bothWell pairsWell (some f) (some g) = true := tablesWell_at hwell hlhs hrhs
    rw [bothWell, pairsWell, Bool.and_eq_true] at hboth
    exact ⟨hleft.describes_join_or hleft' hboth.1 (hfg.imp And.left And.left),
      hright.describes_join_or hright' hboth.2 (hfg.imp And.right And.right)⟩
  obtain ⟨f, hf, hD⟩ := hdescribes
  exact ⟨f, hf ▸ hjoined, hD⟩

theorem describes_joined_elements (hl : StateFacts sites size depth existing)
    (hr : StateFacts sites size depth incoming) (hsites : SameSites existing incoming)
    (hwell : tablesWell (bothWell joinsWell) existing.refArrayElementsBySite
      incoming.refArrayElementsBySite = true) {site : ℕ} {a : V}
    (h : (∃ e, existing.refArrayElementsBySite[site]? = some (some e) ∧ Describes W e a) ∨
      ∃ e, incoming.refArrayElementsBySite[site]? = some (some e) ∧ Describes W e a) :
    ∃ e, (List.zipWith (joinPointers joinRefArrayElementValues) existing.refArrayElementsBySite
        incoming.refArrayElementsBySite)[site]? = some (some e) ∧ Describes W e a := by
  have hentry : (∃ e, existing.refArrayElementsBySite[site]? = some e ∧
        ∃ f, e = some f ∧ Describes W f a) ∨
      ∃ e, incoming.refArrayElementsBySite[site]? = some e ∧ ∃ f, e = some f ∧ Describes W f a :=
    h.imp (fun ⟨f, hf, hD⟩ => ⟨some f, hf, f, rfl, hD⟩) fun ⟨f, hf, hD⟩ =>
      ⟨some f, hf, f, rfl, hD⟩
  obtain ⟨lhs, rhs, hlhs, hrhs, heither, hjoined⟩ := exists_zipWith hsites.elements hentry
  have hdescribes : ∃ f, joinPointers joinRefArrayElementValues lhs rhs = some f ∧
      Describes W f a := by
    apply exists_joinPointers _ heither
    rintro e e' rfl rfl hee
    have hplace : bothWell joinsWell (some e) (some e') = true := tablesWell_at hwell hlhs hrhs
    exact describes_joinElements (hl.elements e (List.mem_of_getElem? hlhs))
      (hr.elements e' (List.mem_of_getElem? hrhs)) hplace hee
  obtain ⟨f, hf, hD⟩ := hdescribes
  exact ⟨f, hf ▸ hjoined, hD⟩

/-- A state that joins two others describes the frames that either one describes, where their
facts join well. -/
theorem JoinsPlaces.describesFrame (hplaces : JoinsPlaces existing incoming joined)
    (hl : StateFacts sites size depth existing) (hr : StateFacts sites size depth incoming)
    (hsites : SameSites existing incoming)
    (hlength : existing.stack.length = incoming.stack.length)
    (hwell : statesWell existing incoming = true)
    (h : DescribesFrame W existing frame ∨ DescribesFrame W incoming frame) :
    DescribesFrame W joined frame := by
  simp only [statesWell, Bool.and_eq_true] at hwell
  obtain ⟨⟨⟨hstack, hlocals⟩, hfields⟩, helements⟩ := hwell
  constructor
  · rw [hplaces.stack]
    exact describes_joined_stack hl hr hlength hstack
      (h.imp DescribesFrame.stack DescribesFrame.stack)
  · intro i fact hfact
    rw [hplaces.locals] at hfact
    exact describes_joined_locals hl hr hlocals h hfact
  · intro site v a b hsite hab
    rw [hplaces.fields]
    exact describes_joined_fields hl hr hsites hfields
      (h.imp (fun h => h.fields site v a b hsite hab) fun h => h.fields site v a b hsite hab)
  · intro site v a hsite ha
    rw [hplaces.elements]
    exact describes_joined_elements hl hr hsites helements
      (h.imp (fun h => h.elements site v a hsite ha) fun h => h.elements site v a hsite ha)

end Frames

/-! ## The states of the analysis -/

section Runs

variable {sites size depth : ℕ} {existing incoming joined : AbstractState}

theorem mem_joinEntries {α : Type} {P : α → Prop} {join : α → α → α × Bool}
    (hjoin : ∀ a b, P a → P b → P (join a b).1) :
    ∀ {as bs : List α}, (∀ a ∈ as, P a) → (∀ b ∈ bs, P b) →
      ∀ c ∈ (joinEntries join as bs).1, P c
  | [], _, ha, _ => ha
  | _ :: _, [], ha, _ => ha
  | a :: as, b :: bs, ha, hb => by
    have htail := mem_joinEntries hjoin (fun a' h => ha a' (List.mem_cons_of_mem _ h))
      (fun b' h => hb b' (List.mem_cons_of_mem _ h))
    intro c hc
    rw [joinEntries] at hc
    rcases List.mem_cons.mp hc with rfl | hc
    · exact hjoin a b (ha a List.mem_cons_self) (hb b List.mem_cons_self)
    · exact htail c hc

/-- A join of states of facts is one. -/
theorem StateFacts.joinInto (hl : StateFacts sites size depth existing)
    (hr : StateFacts sites size depth incoming) {changed : Bool}
    (h : joinStateInto existing incoming = some (joined, changed)) :
    StateFacts sites size depth joined := by
  obtain ⟨rfl, -⟩ := joinStateInto_eq h
  have hfact {lhs rhs : AbstractValue} (hl : Fact sites size depth lhs)
      (hr : Fact sites size depth rhs) : Fact sites size depth (joinValueInto lhs rhs).1 := by
    rw [joinValueInto_fst]
    exact hl.join hr
  constructor
  · exact mem_joinEntries (fun a b ha hb => hfact ha hb) hl.stack hr.stack
  · intro value hvalue
    apply mem_joinEntries (P := fun entry => ∀ value, entry = some value →
      Fact sites size depth value) _ (forall_some_mem hl.locals) (forall_some_mem hr.locals) _
      hvalue value rfl
    intro a b ha hb value hvalue
    rw [joinLocalInto_fst] at hvalue
    obtain ⟨a, b, rfl, rfl, rfl⟩ := joinLocals_eq_some hvalue
    exact (ha a rfl).join (hb b rfl)
  · intro fields hfields
    apply mem_joinEntries (P := fun entry => ∀ fields, entry = some fields →
      Fact sites size depth fields.left ∧ Fact sites size depth fields.right) _
      (forall_some_mem hl.fields) (forall_some_mem hr.fields) _ hfields fields rfl
    intro a b ha hb fields hfields
    rw [joinFieldsInto_fst] at hfields
    rcases joinPointers_cases hfields with h | h | ⟨left, right, rfl, rfl, rfl⟩
    · exact ha fields h
    · exact hb fields h
    · exact ⟨(ha left rfl).1.join (hb right rfl).1, (ha left rfl).2.join (hb right rfl).2⟩
  · intro element helement
    apply mem_joinEntries (P := fun entry => ∀ element, entry = some element →
      ElementFact sites size depth element) _ (forall_some_mem hl.elements)
      (forall_some_mem hr.elements) _ helement element rfl
    intro a b ha hb element helement
    rw [joinElementInto_fst] at helement
    rcases joinPointers_cases helement with h | h | ⟨left, right, rfl, rfl, rfl⟩
    · exact ha element h
    · exact hb element h
    · exact (ha left rfl).join (hb right rfl)

/-- All that the analysis of a function ever knows are facts. -/
theorem facts_of_visitRounds {answers : ℕ → Conformance} {module : Module} {function : Function}
    {functionIndex rounds : ℕ} {flow : Dataflow}
    (hcheck : checkFunction module functionIndex function = .ok ())
    (h : visitRounds answers module function functionIndex (initialDataflow function) rounds =
      .ok flow) : flow.Meets (FactsAt module function) := by
  have hlength : (initialDataflow function).states.length = function.code.length := by
    simp [initialDataflow]
  apply (Worklist.meets_visits h (meets_initialDataflow module function) _ _).1
  · intro n node state successors hlt hstate hsuccessors t ht
    rw [hlength] at hlt
    have hsuccessor : SuccessorAt module (Point.mk function functionIndex node).function t :=
      successors_successorsAt hlt (handlersInCode_of_checkFunction hcheck) hstate hsuccessors t ht
    exact hsuccessor.2
  · intro target existing incoming joined hexisting hincoming hjoined
    exact hexisting.joinInto hincoming (joinAt_eq hjoined)

end Runs

/-! ## Joins -/

section Joins

variable {sites size depth : ℕ} {lhs rhs : AbstractValue} {existing incoming : AbstractState}

/-- A join of two facts is what it should be: it describes what either one does, keeps an origin
that both have, is the same either way round, and leaves a fact joined with itself alone. -/
structure IsJoin (lhs rhs : AbstractValue) : Prop where
  upper : joinValues lhs rhs ≠ poisonValue → ∀ (V : Type) (W : World V) (v : V),
    Describes W lhs v ∨ Describes W rhs v → Describes W (joinValues lhs rhs) v
  idempotent : SelfJoined lhs ∧ SelfJoined rhs
  commutative : joinValues lhs rhs = joinValues rhs lhs

/-- A join of two states is what it should be: place by place the join of the two, reported when
it is not the state that was there, and one that describes the frames either one does where the
joins of the facts do. -/
def IsStateJoin (existing incoming : AbstractState) : Prop :=
  ∀ joined changed, joinStateInto existing incoming = some (joined, changed) →
    JoinsPlaces existing incoming joined ∧ (changed = true ↔ joined ≠ existing) ∧
      (statesWell existing incoming = true → ∀ (V : Type) (W : World V) (frame : Frame V),
        DescribesFrame W existing frame ∨ DescribesFrame W incoming frame →
          DescribesFrame W joined frame)

theorem covered_of_upper (hl : Fact sites size depth lhs) (hr : Fact sites size depth rhs)
    (hupper : joinValues lhs rhs ≠ poisonValue → ∀ (V : Type) (W : World V) (v : V),
      Describes W lhs v → Describes W (joinValues lhs rhs) v) :
    covered (withoutMaybe lhs) (withoutMaybe rhs) = true := by
  by_contra hcovered
  obtain ⟨hne, tree, hdescribes, hlost⟩ :=
    hl.leavesOut hr (Bool.not_eq_true _ ▸ hcovered)
  exact hlost (hupper hne Tree (treeWorld tree) tree hdescribes)

/-- The join of two facts is what it should be just when they join well. -/
theorem isJoin_iff_joinsWell (hl : Fact sites size depth lhs) (hr : Fact sites size depth rhs) :
    IsJoin lhs rhs ↔ joinsWell lhs rhs = true := by
  have hcomm := hl.joinValues_comm hr
  constructor
  · rintro ⟨hupper, ⟨hself, hself'⟩, -⟩
    simp only [joinsWell, Bool.and_eq_true]
    refine ⟨⟨⟨?_, ?_⟩, hl.selfJoined_iff.mp hself⟩, hr.selfJoined_iff.mp hself'⟩
    · exact covered_of_upper hl hr fun hne V W v h => hupper hne V W v (.inl h)
    · apply covered_of_upper hr hl
      rw [← hcomm]
      exact fun hne V W v h => hupper hne V W v (.inr h)
  · intro hwell
    refine ⟨fun _ V W v h => hl.describes_join_or hr hwell h, ?_, hcomm⟩
    simp only [joinsWell, Bool.and_eq_true] at hwell
    exact ⟨hl.selfJoined_iff.mpr hwell.1.2, hr.selfJoined_iff.mpr hwell.2⟩

theorem isStateJoin (hl : StateFacts sites size depth existing)
    (hr : StateFacts sites size depth incoming) (hsites : SameSites existing incoming) :
    IsStateJoin existing incoming := by
  intro joined changed h
  have hplaces := joinsPlaces_of_joinStateInto hsites h
  refine ⟨hplaces, changed_iff h, fun hwell V W frame hframe => ?_⟩
  exact hplaces.describesFrame hl hr hsites (lengths_of_joinStateInto h).1 hwell hframe

/-- The verifier's join: of two facts it is what it should be just when they join well, and it
extends to states place by place. -/
theorem join_meets_iff (hl : Fact sites size depth lhs) (hr : Fact sites size depth rhs)
    (hexisting : StateFacts sites size depth existing)
    (hincoming : StateFacts sites size depth incoming) (hsites : SameSites existing incoming) :
    (IsJoin lhs rhs ↔ joinsWell lhs rhs = true) ∧ IsStateJoin existing incoming :=
  ⟨isJoin_iff_joinsWell hl hr, isStateJoin hexisting hincoming hsites⟩

/-- A state of a function of one instruction, with one value on the stack. -/
def stateOf (value : AbstractValue) : AbstractState :=
  { stack := [value]
    locals := []
    localReferenceKinds := []
    fieldsBySite := [none]
    refArrayElementsBySite := [none] }

theorem facts_stateOf {value : AbstractValue} (h : Fact sites size depth value) :
    StateFacts sites size depth (stateOf value) where
  stack fact hfact := List.mem_singleton.mp hfact ▸ h
  locals := nofun
  fields fields hfields := nomatch List.mem_singleton.mp hfields
  elements element helement := nomatch List.mem_singleton.mp helement

/-- An object of a site or of a named type, and a record or nil. -/
theorem join_meets_site_named :
    IsJoin (objectValue 0) (namedSignatureObjectValue 1) ∧
      IsStateJoin (stateOf (recordValue 0 false)) (stateOf (recordValue 0 true)) := by
  have hsite : Fact 1 0 1 (objectValue 0) := (fact_siteValue Nat.one_pos).1
  have hnamed : Fact 1 0 1 (namedSignatureObjectValue 1) :=
    .plain (plain_of_shape (shape_flat nofun nofun (not_mem_sites rfl) (not_mem_sites rfl) rfl rfl
      rfl nofun nofun (of_decide_eq_true rfl)))
  have hmeets := join_meets_iff hsite hnamed (facts_stateOf (fact_nominal.1))
    (facts_stateOf (fact_nominal.1)) (⟨rfl, rfl⟩ : SameSites (stateOf (recordValue 0 false))
      (stateOf (recordValue 0 true)))
  exact ⟨hmeets.1.mpr (by decide), hmeets.2⟩

/-- Of two named types the join knows neither, so it describes no instance of the first. -/
theorem named_not_isJoin :
    ¬IsJoin (namedSignatureObjectValue 0) (namedSignatureObjectValue 1) := by
  intro h
  have heq : joinValues (namedSignatureObjectValue 0) (namedSignatureObjectValue 1) =
      joinSameKind (namedSignatureObjectValue 0) (namedSignatureObjectValue 1) :=
    joinValues_of_kind_eq (maybeTarget_of_kind_ne nofun) (maybeTarget_of_kind_ne nofun) rfl nofun
  obtain ⟨hne, tree, -, hshows, hlost⟩ := loses_names rfl heq rfl rfl rfl Nat.zero_ne_one
  have hdescribes := h.upper (ne_poisonValue hne) Tree (treeWorld tree) tree
    (.inl ⟨hshows tree, hasOrigins_here _ tree⟩)
  exact hlost tree hdescribes.1

end Joins

end LanguageRuntime.Bytecode
