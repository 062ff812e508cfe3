import LanguageRuntime.Bytecode.DescentTheorems
import LanguageRuntime.Bytecode.Verify
import Mathlib.Algebra.BigOperators.Group.List.Basic

/-!
# The ranks of states

A merge at a pc lowers the state it changes when no two facts of the merged states clash: a fact
of a site may appear, or the facts that are there fall.
-/

namespace LanguageRuntime.Bytecode

open LanguageRuntime.Library

/-! ## Clashes of states -/

/-- Two entries clash when both are there and their values do. -/
def bothClash {α : Type} (clash : α → α → Bool) : Option α → Option α → Bool
  | some lhs, some rhs => clash lhs rhs
  | _, _ => false

/-- Two tables clash at an entry. -/
def tablesClash {α : Type} (clash : α → α → Bool) (lhs rhs : List α) : Bool :=
  (lhs.zip rhs).any fun (left, right) => clash left right

def pairsClash (lhs rhs : PairFields) : Bool :=
  factsClash lhs.left rhs.left || factsClash lhs.right rhs.right

/-- Two states clash: at a place both know about, two names clash, or an object fact about the
elements of a site meets one of another kind. -/
def statesClash (existing incoming : AbstractState) : Bool :=
  tablesClash factsClash existing.stack incoming.stack ||
    tablesClash (bothClash factsClash) existing.locals incoming.locals ||
    tablesClash (bothClash pairsClash) existing.fieldsBySite incoming.fieldsBySite ||
    tablesClash (bothClash elementsClash) existing.refArrayElementsBySite
      incoming.refArrayElementsBySite

/-! ## Facts and ranks of states -/

/-- Every place of a state holds a fact. -/
structure StateFacts (sites size depth : ℕ) (state : AbstractState) : Prop where
  stack : ∀ value ∈ state.stack, Fact sites size depth value
  locals : ∀ value, some value ∈ state.locals → Fact sites size depth value
  fields : ∀ fields, some fields ∈ state.fieldsBySite →
    Fact sites size depth fields.left ∧ Fact sites size depth fields.right
  elements : ∀ element, some element ∈ state.refArrayElementsBySite →
    ElementFact sites size depth element

/-- The sum of the ranks of a table. -/
def tableRank {α : Type} (rank : α → ℕ) (table : List α) : ℕ := (table.map rank).sum

/-- An initialized local is above an uninitialized one. -/
def localRank (sites depth : ℕ) (entry : Option AbstractValue) : ℕ :=
  entry.elim 0 (factRank sites depth · + 1)

def pairRank (sites depth : ℕ) (entry : Option PairFields) : ℕ :=
  entry.elim 0 fun fields => factRank sites depth fields.left + factRank sites depth fields.right

def siteElementRank (sites depth : ℕ) (entry : Option AbstractValue) : ℕ :=
  entry.elim 0 (elementRank sites depth)

/-- How many facts of sites are missing. -/
def missingRank {α : Type} (entry : Option α) : ℕ := entry.isNone.toNat

/-- The coarse rank of a state: the sites it knows nothing about. -/
def coarseRank (state : AbstractState) : ℕ :=
  tableRank missingRank state.fieldsBySite + tableRank missingRank state.refArrayElementsBySite

/-- The fine rank of a state: the ranks of its facts. -/
def fineRank (sites depth : ℕ) (state : AbstractState) : ℕ :=
  tableRank (factRank sites depth) state.stack + tableRank (localRank sites depth) state.locals +
    tableRank missingRank state.localReferenceKinds +
    tableRank (pairRank sites depth) state.fieldsBySite +
    tableRank (siteElementRank sites depth) state.refArrayElementsBySite

/-! ## Tables -/

/-- Ranks that do not rise, the coarse one first, and fall when something changed. -/
def Descends (changed : Bool) (coarse fine coarse' fine' : ℕ) : Prop :=
  coarse' < coarse ∨ coarse' = coarse ∧ fine' ≤ fine ∧ (changed = true → fine' < fine)

section Tables

variable {changed changed' : Bool} {a b c d a' b' c' d' : ℕ}

theorem Descends.add (h : Descends changed a b a' b') (h' : Descends changed' c d c' d') :
    Descends (changed || changed') (a + c) (b + d) (a' + c') (b' + d') := by
  rcases h with hlt | ⟨heq, hle, hlower⟩
  · rcases h' with hlt' | ⟨heq', -⟩
    · exact .inl (by omega)
    · exact .inl (by omega)
  · rcases h' with hlt' | ⟨heq', hle', hlower'⟩
    · exact .inl (by omega)
    · refine .inr ⟨by omega, by omega, fun hchanged => ?_⟩
      rcases (Bool.or_eq_true _ _).mp hchanged with hchanged | hchanged
      · have hlt := hlower hchanged
        omega
      · have hlt := hlower' hchanged
        omega

theorem descends_unchanged (coarse fine : ℕ) : Descends false coarse fine coarse fine :=
  .inr ⟨rfl, le_rfl, nofun⟩

theorem tablesClash_never {α : Type} (lhs rhs : List α) :
    tablesClash (fun _ _ => false) lhs rhs = false := by
  simp [tablesClash]

theorem descends_joinEntries {α : Type} {P : α → Prop} {join : α → α → α × Bool}
    (clash : α → α → Bool) (coarse fine : α → ℕ)
    (hjoin : ∀ existing incoming, P existing → P incoming → clash existing incoming = false →
      P (join existing incoming).1 ∧
        Descends (join existing incoming).2 (coarse existing) (fine existing)
          (coarse (join existing incoming).1) (fine (join existing incoming).1)) :
    ∀ {existings incomings : List α}, (∀ a ∈ existings, P a) → (∀ a ∈ incomings, P a) →
      tablesClash clash existings incomings = false →
        (∀ a ∈ (joinEntries join existings incomings).1, P a) ∧
          Descends (joinEntries join existings incomings).2 (tableRank coarse existings)
            (tableRank fine existings) (tableRank coarse (joinEntries join existings incomings).1)
            (tableRank fine (joinEntries join existings incomings).1)
  | existing :: existings, incoming :: incomings, hexisting, hincoming, hclash => by
    rw [tablesClash, List.zip_cons_cons, List.any_cons, Bool.or_eq_false_iff] at hclash
    obtain ⟨hhead, hdescends⟩ := hjoin existing incoming (hexisting _ List.mem_cons_self)
      (hincoming _ List.mem_cons_self) hclash.1
    obtain ⟨htail, hdescends'⟩ := descends_joinEntries clash coarse fine hjoin
      (fun a ha => hexisting a (List.mem_cons_of_mem _ ha))
      (fun a ha => hincoming a (List.mem_cons_of_mem _ ha)) hclash.2
    rw [joinEntries]
    refine ⟨fun a ha => ?_, ?_⟩
    · rcases List.mem_cons.mp ha with rfl | ha
      · exact hhead
      · exact htail a ha
    · simp only [tableRank, List.map_cons, List.sum_cons]
      exact hdescends.add hdescends'
  | [], _, hexisting, _, _ => ⟨by simpa [joinEntries] using hexisting, descends_unchanged _ _⟩
  | existing :: existings, [], hexisting, _, _ => ⟨hexisting, descends_unchanged _ _⟩

end Tables

/-! ## Entries -/

section Entries

variable {sites size depth : ℕ}

theorem descends_joinValueInto {lhs rhs : AbstractValue} (hl : Fact sites size depth lhs)
    (hr : Fact sites size depth rhs) (hclash : factsClash lhs rhs = false) :
    Fact sites size depth (joinValueInto lhs rhs).1 ∧
      Descends (joinValueInto lhs rhs).2 0 (factRank sites depth lhs) 0
        (factRank sites depth (joinValueInto lhs rhs).1) := by
  obtain ⟨hle, hsame⟩ := factRank_join hl hr hclash
  unfold joinValueInto
  dsimp only
  split
  case isTrue heq => exact ⟨hl, descends_unchanged _ _⟩
  case isFalse hne =>
    refine ⟨hl.join hr, .inr ⟨rfl, hle, fun _ => ?_⟩⟩
    exact lt_of_le_of_ne hle fun heq => hne (hsame heq)

theorem descends_joinLocalInto {lhs rhs : Option AbstractValue}
    (hl : ∀ value, lhs = some value → Fact sites size depth value)
    (hr : ∀ value, rhs = some value → Fact sites size depth value)
    (hclash : bothClash factsClash lhs rhs = false) :
    (∀ value, (joinLocalInto lhs rhs).1 = some value → Fact sites size depth value) ∧
      Descends (joinLocalInto lhs rhs).2 0 (localRank sites depth lhs) 0
        (localRank sites depth (joinLocalInto lhs rhs).1) := by
  match lhs, rhs with
  | some lhs, some rhs =>
    obtain ⟨hfact, hdescends⟩ := descends_joinValueInto (hl _ rfl) (hr _ rfl) hclash
    refine ⟨fun value hvalue => Option.some.inj hvalue ▸ hfact, ?_⟩
    have hraised := hdescends.add (descends_unchanged 0 1)
    rw [Bool.or_false] at hraised
    exact hraised
  | some lhs, none => exact ⟨nofun, .inr ⟨rfl, Nat.zero_le _, fun _ => Nat.succ_pos _⟩⟩
  | none, _ => exact ⟨nofun, descends_unchanged _ _⟩

theorem descends_joinReferenceKindInto (lhs rhs : Option Bool) :
    Descends (joinReferenceKindInto lhs rhs).2 0 (missingRank lhs) 0
      (missingRank (joinReferenceKindInto lhs rhs).1) := by
  match lhs, rhs with
  | none, some _ => exact .inr ⟨rfl, Nat.zero_le _, fun _ => Nat.one_pos⟩
  | none, none => exact descends_unchanged _ _
  | some _, _ => exact descends_unchanged _ _

theorem descends_joinFieldsInto {lhs rhs : Option PairFields}
    (hl : ∀ fields, lhs = some fields →
      Fact sites size depth fields.left ∧ Fact sites size depth fields.right)
    (hr : ∀ fields, rhs = some fields →
      Fact sites size depth fields.left ∧ Fact sites size depth fields.right)
    (hclash : bothClash pairsClash lhs rhs = false) :
    (∀ fields, (joinFieldsInto lhs rhs).1 = some fields →
      Fact sites size depth fields.left ∧ Fact sites size depth fields.right) ∧
      Descends (joinFieldsInto lhs rhs).2 (missingRank lhs) (pairRank sites depth lhs)
        (missingRank (joinFieldsInto lhs rhs).1) (pairRank sites depth (joinFieldsInto lhs rhs).1) := by
  match lhs, rhs with
  | some lhs, some rhs =>
    obtain ⟨hleft, hright⟩ := Bool.or_eq_false_iff.mp hclash
    obtain ⟨hfact, hdescends⟩ := descends_joinValueInto (hl _ rfl).1 (hr _ rfl).1 hleft
    obtain ⟨hfact', hdescends'⟩ := descends_joinValueInto (hl _ rfl).2 (hr _ rfl).2 hright
    exact ⟨fun fields hfields => Option.some.inj hfields ▸ ⟨hfact, hfact'⟩,
      hdescends.add hdescends'⟩
  | none, some rhs => exact ⟨hr, .inl Nat.one_pos⟩
  | none, none => exact ⟨nofun, descends_unchanged _ _⟩
  | some lhs, none => exact ⟨hl, descends_unchanged _ _⟩

theorem descends_joinElementInto {lhs rhs : Option AbstractValue}
    (hl : ∀ element, lhs = some element → ElementFact sites size depth element)
    (hr : ∀ element, rhs = some element → ElementFact sites size depth element)
    (hclash : bothClash elementsClash lhs rhs = false) :
    (∀ element, (joinElementInto lhs rhs).1 = some element → ElementFact sites size depth element) ∧
      Descends (joinElementInto lhs rhs).2 (missingRank lhs) (siteElementRank sites depth lhs)
        (missingRank (joinElementInto lhs rhs).1)
        (siteElementRank sites depth (joinElementInto lhs rhs).1) := by
  match lhs, rhs with
  | some lhs, some rhs =>
    obtain ⟨hle, hsame⟩ := elementRank_join (hl _ rfl) (hr _ rfl) hclash
    rw [joinElementInto, joinRefArrayElementInto]
    dsimp only
    split
    case isTrue => exact ⟨hl, descends_unchanged _ _⟩
    case isFalse hne =>
      refine ⟨fun element helement => Option.some.inj helement ▸ (hl _ rfl).join (hr _ rfl), ?_⟩
      exact .inr ⟨rfl, hle, fun _ => lt_of_le_of_ne hle fun heq => hne (hsame heq)⟩
  | none, some rhs => exact ⟨hr, .inl Nat.one_pos⟩
  | none, none => exact ⟨nofun, descends_unchanged _ _⟩
  | some lhs, none => exact ⟨hl, descends_unchanged _ _⟩

end Entries

/-! ## States -/

section States

variable {sites size depth functionIndex target : ℕ} {existing incoming joined : AbstractState}

/-- Everything a join of states can be. -/
theorem joinStateInto_eq {changed : Bool}
    (h : joinStateInto existing incoming = some (joined, changed)) :
    joined = ⟨(joinEntries joinValueInto existing.stack incoming.stack).1,
      (joinEntries joinLocalInto existing.locals incoming.locals).1,
      (joinEntries joinReferenceKindInto existing.localReferenceKinds
        incoming.localReferenceKinds).1,
      (joinEntries joinFieldsInto existing.fieldsBySite incoming.fieldsBySite).1,
      (joinEntries joinElementInto existing.refArrayElementsBySite
        incoming.refArrayElementsBySite).1⟩ ∧
    changed = ((joinEntries joinValueInto existing.stack incoming.stack).2 ||
      (joinEntries joinLocalInto existing.locals incoming.locals).2 ||
      (joinEntries joinReferenceKindInto existing.localReferenceKinds
        incoming.localReferenceKinds).2 ||
      (joinEntries joinFieldsInto existing.fieldsBySite incoming.fieldsBySite).2 ||
      (joinEntries joinElementInto existing.refArrayElementsBySite
        incoming.refArrayElementsBySite).2) := by
  unfold joinStateInto at h
  split at h
  case isTrue => exact nomatch h
  case isFalse =>
    split at h
    case isTrue => exact nomatch h
    case isFalse =>
      dsimp only at h
      cases h
      exact ⟨rfl, rfl⟩

theorem joinAt_eq (h : joinAt functionIndex target existing incoming = .ok (some joined)) :
    joinStateInto existing incoming = some (joined, true) := by
  unfold joinAt at h
  split at h
  case isTrue => exact nomatch h
  case isFalse =>
    split at h
    case isTrue => exact nomatch h
    case isFalse =>
      split at h
      case h_1 => exact nomatch h
      case h_2 joined' changed hjoined =>
        cases changed with
        | false => exact nomatch h
        | true =>
          cases h
          exact hjoined

theorem forall_some_mem {α : Type} {P : α → Prop} {table : List (Option α)}
    (h : ∀ a, some a ∈ table → P a) : ∀ entry ∈ table, ∀ a, entry = some a → P a := by
  intro entry hentry a heq
  exact h a (heq ▸ hentry)

/-- States that do not clash: their join holds facts, and it is lower when it changed. -/
theorem StateFacts.join (hl : StateFacts sites size depth existing)
    (hr : StateFacts sites size depth incoming) (hclash : statesClash existing incoming = false)
    (h : joinAt functionIndex target existing incoming = .ok (some joined)) :
    StateFacts sites size depth joined ∧
      Worklist.Lowers coarseRank (fineRank sites depth) joined existing := by
  obtain ⟨hjoined, hchanged⟩ := joinStateInto_eq (joinAt_eq h)
  simp only [statesClash, Bool.or_eq_false_iff] at hclash
  obtain ⟨⟨⟨hstackClash, hlocalsClash⟩, hfieldsClash⟩, helementsClash⟩ := hclash
  obtain ⟨hstack, hstackFalls⟩ := descends_joinEntries factsClash (fun _ => 0)
    (factRank sites depth) (fun _ _ hl hr hc => descends_joinValueInto hl hr hc) hl.stack hr.stack
    hstackClash
  obtain ⟨hlocals, hlocalsFalls⟩ := descends_joinEntries (bothClash factsClash)
    (fun _ => 0) (localRank sites depth) (fun _ _ hl hr hc => descends_joinLocalInto hl hr hc)
    (forall_some_mem hl.locals) (forall_some_mem hr.locals) hlocalsClash
  obtain ⟨-, hkindsFalls⟩ := descends_joinEntries (P := fun _ => True) (fun _ _ => false)
    (fun _ => 0) missingRank
    (fun lhs rhs _ _ _ => ⟨trivial, descends_joinReferenceKindInto lhs rhs⟩)
    (fun _ _ => trivial) (fun _ _ => trivial)
    (tablesClash_never existing.localReferenceKinds incoming.localReferenceKinds)
  obtain ⟨hfields, hfieldsFalls⟩ := descends_joinEntries (bothClash pairsClash)
    missingRank (pairRank sites depth) (fun _ _ hl hr hc => descends_joinFieldsInto hl hr hc)
    (forall_some_mem hl.fields) (forall_some_mem hr.fields) hfieldsClash
  obtain ⟨helements, helementsFalls⟩ := descends_joinEntries (bothClash elementsClash)
    missingRank (siteElementRank sites depth)
    (fun _ _ hl hr hc => descends_joinElementInto hl hr hc)
    (forall_some_mem hl.elements) (forall_some_mem hr.elements) helementsClash
  subst hjoined
  refine ⟨⟨hstack, fun value hvalue => hlocals _ hvalue value rfl,
    fun fields hfield => hfields _ hfield fields rfl,
    fun element helement => helements _ helement element rfl⟩, ?_⟩
  have htotal := (((hstackFalls.add hlocalsFalls).add hkindsFalls).add hfieldsFalls).add
    helementsFalls
  rw [← hchanged] at htotal
  have hzero {α : Type} (table : List α) : tableRank (fun _ => 0) table = 0 := by
    simp [tableRank]
  simp only [hzero, Nat.zero_add] at htotal
  rcases htotal with hlt | ⟨heq, -, hlt⟩
  · exact .inl hlt
  · exact .inr ⟨heq, hlt rfl⟩

end States

end LanguageRuntime.Bytecode
