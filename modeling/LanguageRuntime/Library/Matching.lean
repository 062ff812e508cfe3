import Mathlib.Data.List.Forall2

/-!
# First-order matching

Matching a pattern with parameters against a term binds the parameters one after the other. A
`Step` reads the bindings made so far, may add one, and says whether it matched; a step that
meets a second term for a bound parameter compares the two and reports a conflict when they
differ. `Infers` says what a step infers: its matches are the substitutions that extend the
bindings it makes. Steps compose, and a run from no binding at all succeeds exactly when there is
one substitution and no other.

Terms are compared by a test `same`, which needs to be an equivalence on the terms with `Good`
only.
-/

namespace LanguageRuntime.Library.Matching

variable {τ : Type}

/-- The bindings of the parameters, and whether two terms for one of them differed. -/
structure State (τ : Type) where
  bindings : List (Option τ)
  conflict : Bool

abbrev Step (τ : Type) := State τ → Bool × State τ

/-- A test that binds nothing. -/
def guard (test : Bool) : Step τ := fun state => (test, state)

/-- A step, and after it another if it matched. -/
def both (first second : Step τ) : Step τ := fun state =>
  if (first state).1 then second (first state).2 else (false, (first state).2)

/-- A step, and after it another in any case. -/
def also (first second : Step τ) : Step τ := fun state =>
  ((second (first state).2).1 && (first state).1, (second (first state).2).2)

/-- A parameter against a term. -/
def bindParameter (bindable : τ → Bool) (same : τ → τ → Bool) (index : ℕ) (actual : τ) :
    Step τ := fun state =>
  match state.bindings[index]? with
  | none => (false, state)
  | some binding =>
    if !bindable actual then (false, state)
    else
      match binding with
      | none => (true, { state with bindings := state.bindings.set index (some actual) })
      | some bound =>
        if same bound actual then (true, state) else (false, { state with conflict := true })

/-! ## What a step infers -/

/-- `same` is an equivalence on the terms with `Good`. -/
structure Lawful (Good : τ → Prop) (same : τ → τ → Bool) : Prop where
  refl : ∀ a, Good a → same a a = true
  symm : ∀ a b, Good a → Good b → same a b = true → same b a = true
  trans : ∀ a b c, Good a → Good b → Good c → same a b = true → same b c = true →
    same a c = true

variable {Good : τ → Prop} {same : τ → τ → Bool} {bindable : τ → Bool}

def State.Bound (state : State τ) (index : ℕ) (term : τ) : Prop :=
  state.bindings[index]? = some (some term)

/-- A substitution that agrees with the bindings. -/
def State.Fits (same : τ → τ → Bool) (state : State τ) (substitution : List τ) : Prop :=
  substitution.length = state.bindings.length ∧ ∀ index term, state.Bound index term →
    ∃ value, substitution[index]? = some value ∧ same value term = true

/-- A state after another: every binding is still there. -/
def State.Extends (next state : State τ) : Prop :=
  next.bindings.length = state.bindings.length ∧
    ∀ index term, state.Bound index term → next.Bound index term

/-- What holds of a step whatever the bindings before it. `Matches` are the substitutions it is
meant to match, `Mentions` the parameters it binds. -/
structure Infers (Good : τ → Prop) (same : τ → τ → Bool) (step : Step τ)
    (Matches : List τ → Prop) (Mentions : ℕ → Prop) : Prop where
  extends_ : ∀ state, (step state).2.Extends state
  good : ∀ state, (∀ index term, state.Bound index term → Good term) →
    ∀ index term, (step state).2.Bound index term → Good term
  conflict : ∀ state, (step state).1 = true → (step state).2.conflict = state.conflict
  binds : ∀ state, (step state).1 = true → ∀ index, Mentions index →
    ∃ term, (step state).2.Bound index term
  frame : ∀ state, (step state).1 = true → ∀ index term, (step state).2.Bound index term →
    state.Bound index term ∨ Mentions index
  sound : ∀ state, (∀ index term, state.Bound index term → Good term) → (step state).1 = true →
    ∀ substitution, (∀ value ∈ substitution, Good value) →
      (step state).2.Fits same substitution → Matches substitution
  complete : ∀ state, (∀ index term, state.Bound index term → Good term) →
    ∀ substitution, (∀ value ∈ substitution, Good value) → state.Fits same substitution →
      Matches substitution → (step state).1 = true ∧ (step state).2.Fits same substitution
  local_ : ∀ substitution substitution', (∀ index, Mentions index →
    substitution[index]? = substitution'[index]?) → Matches substitution → Matches substitution'

theorem State.Extends.refl (state : State τ) : state.Extends state :=
  ⟨rfl, fun _ _ h => h⟩

theorem State.Extends.trans {last next state : State τ} (h' : last.Extends next)
    (h : next.Extends state) : last.Extends state :=
  ⟨h'.1.trans h.1, fun index term hbound => h'.2 index term (h.2 index term hbound)⟩

theorem State.Fits.of_extends {next state : State τ} {substitution : List τ}
    (h : next.Extends state) (hfits : next.Fits same substitution) :
    state.Fits same substitution :=
  ⟨hfits.1.trans h.1, fun index term hbound => hfits.2 index term (h.2 index term hbound)⟩

namespace Infers

variable {step first second : Step τ} {Matches Matches' : List τ → Prop}
  {Mentions Mentions' : ℕ → Prop}

theorem congr (h : Infers Good same step Matches Mentions)
    (hmatches : ∀ substitution, Matches substitution ↔ Matches' substitution) :
    Infers Good same step Matches' Mentions := by
  have heq : Matches = Matches' := funext fun substitution => propext (hmatches substitution)
  rwa [← heq]

theorem guard (test : Bool) :
    Infers Good same (guard test : Step τ) (fun _ => test = true) fun _ => False where
  extends_ state := State.Extends.refl state
  good _ h := h
  conflict _ _ := rfl
  binds _ _ _ h := h.elim
  frame _ _ _ _ h := .inl h
  sound _ _ h _ _ _ := h
  complete _ _ _ _ hfits h := ⟨h, hfits⟩
  local_ _ _ _ h := h

/-- Two steps of which the second runs in any case match what both match. -/
theorem also (hfirst : Infers Good same first Matches Mentions)
    (hsecond : Infers Good same second Matches' Mentions') :
    Infers Good same (Matching.also first second)
      (fun substitution => Matches substitution ∧ Matches' substitution)
      (fun index => Mentions index ∨ Mentions' index) where
  extends_ state := (hsecond.extends_ _).trans (hfirst.extends_ state)
  good state h := hsecond.good _ (hfirst.good state h)
  conflict state h := by
    obtain ⟨h', h⟩ := Bool.and_eq_true_iff.mp h
    exact (hsecond.conflict _ h').trans (hfirst.conflict state h)
  binds state h index hmentions := by
    obtain ⟨h', h⟩ := Bool.and_eq_true_iff.mp h
    obtain hmentions | hmentions := hmentions
    · obtain ⟨term, hterm⟩ := hfirst.binds state h index hmentions
      exact ⟨term, (hsecond.extends_ _).2 index term hterm⟩
    · exact hsecond.binds _ h' index hmentions
  frame state h index term hbound := by
    obtain ⟨h', h⟩ := Bool.and_eq_true_iff.mp h
    obtain hbound | hmentions := hsecond.frame _ h' index term hbound
    · exact (hfirst.frame state h index term hbound).imp_right .inl
    · exact .inr (.inr hmentions)
  sound state hgood h substitution hvalues hfits := by
    obtain ⟨h', h⟩ := Bool.and_eq_true_iff.mp h
    exact ⟨hfirst.sound state hgood h substitution hvalues (hfits.of_extends (hsecond.extends_ _)),
      hsecond.sound _ (hfirst.good state hgood) h' substitution hvalues hfits⟩
  complete state hgood substitution hvalues hfits hmatches := by
    obtain ⟨h, hnext⟩ := hfirst.complete state hgood substitution hvalues hfits hmatches.1
    obtain ⟨h', hlast⟩ := hsecond.complete _ (hfirst.good state hgood) substitution hvalues hnext
      hmatches.2
    exact ⟨Bool.and_eq_true_iff.mpr ⟨h', h⟩, hlast⟩
  local_ substitution substitution' hagree hmatches :=
    ⟨hfirst.local_ _ _ (fun index h => hagree index (.inl h)) hmatches.1,
      hsecond.local_ _ _ (fun index h => hagree index (.inr h)) hmatches.2⟩

theorem both_eq_also {state : State τ} (h : (both first second state).1 = true) :
    both first second state = Matching.also first second state := by
  rw [both] at h ⊢
  split at h
  next hfirst => rw [if_pos hfirst, Matching.also, hfirst, Bool.and_true]
  next => exact absurd h Bool.false_ne_true

/-- Two steps of which the second runs only after a match match what both match. -/
theorem both (hfirst : Infers Good same first Matches Mentions)
    (hsecond : Infers Good same second Matches' Mentions') :
    Infers Good same (Matching.both first second)
      (fun substitution => Matches substitution ∧ Matches' substitution)
      (fun index => Mentions index ∨ Mentions' index) where
  extends_ state := by
    rw [Matching.both]
    split
    · exact (hsecond.extends_ _).trans (hfirst.extends_ state)
    · exact hfirst.extends_ state
  good state h := by
    rw [Matching.both]
    split
    · exact hsecond.good _ (hfirst.good state h)
    · exact hfirst.good state h
  conflict state h := by
    have heq := both_eq_also h
    rw [heq] at h ⊢
    exact (hfirst.also hsecond).conflict state h
  binds state h := by
    have heq := both_eq_also h
    rw [heq] at h ⊢
    exact (hfirst.also hsecond).binds state h
  frame state h := by
    have heq := both_eq_also h
    rw [heq] at h ⊢
    exact (hfirst.also hsecond).frame state h
  sound state hgood h := by
    have heq := both_eq_also h
    rw [heq] at h ⊢
    exact (hfirst.also hsecond).sound state hgood h
  complete state hgood substitution hvalues hfits hmatches := by
    have hfirst' := (hfirst.complete state hgood substitution hvalues hfits hmatches.1).1
    have hboth : Matching.both first second state = Matching.also first second state := by
      rw [Matching.both, if_pos hfirst', Matching.also, hfirst', Bool.and_true]
    rw [hboth]
    exact (hfirst.also hsecond).complete state hgood substitution hvalues hfits hmatches
  local_ := (hfirst.also hsecond).local_

/-- A first term for a parameter is the only change to the bindings. -/
theorem bound_set {state : State τ} {index : ℕ} {actual : τ}
    (hindex : state.bindings[index]? = some none) (other : ℕ) (term : τ) :
    ({ state with bindings := state.bindings.set index (some actual) } : State τ).Bound other
        term ↔ other = index ∧ term = actual ∨ state.Bound other term := by
  have hlt : index < state.bindings.length := (List.getElem?_eq_some_iff.mp hindex).1
  rw [State.Bound, State.Bound, List.getElem?_set]
  by_cases hother : index = other
  · subst hother
    have hnone : state.bindings[index]? ≠ some (some term) := by simp [hindex]
    simp only [hlt, if_true, hnone, or_false, true_and, Option.some.injEq, eq_comm]
  · simp [hother, Ne.symm hother, eq_comm]

/-- The five ways of a parameter against a term. -/
theorem bindParameter_cases (bindable : τ → Bool) (same : τ → τ → Bool) (index : ℕ)
    (actual : τ) (state : State τ) :
    (Matching.bindParameter bindable same index actual state).1 = false ∧
        (Matching.bindParameter bindable same index actual state).2.bindings = state.bindings ∧
        (state.bindings[index]? = none ∨ bindable actual = false ∨
          ∃ bound, state.Bound index bound ∧ same bound actual = false) ∨
      bindable actual = true ∧
        (state.bindings[index]? = some none ∧
            Matching.bindParameter bindable same index actual state =
              (true, { state with bindings := state.bindings.set index (some actual) }) ∨
          ∃ bound, state.Bound index bound ∧ same bound actual = true ∧
            Matching.bindParameter bindable same index actual state = (true, state)) := by
  simp only [Matching.bindParameter, State.Bound]
  cases hbinding : state.bindings[index]? with
  | none => simp
  | some binding =>
    cases hbindable : bindable actual with
    | false => simp
    | true =>
      cases binding with
      | none => simp
      | some bound => cases hsame : same bound actual <;> simp [hsame]

/-- A parameter matches when its value is the term. -/
theorem bindParameter (hlawful : Lawful Good same) {index : ℕ} {actual : τ}
    (hactual : Good actual) :
    Infers Good same (bindParameter bindable same index actual)
      (fun substitution => bindable actual = true ∧
        ∃ value, substitution[index]? = some value ∧ same value actual = true)
      (fun other => other = index) where
  extends_ state := by
    obtain ⟨-, hbindings, -⟩ | ⟨-, ⟨hindex, heq⟩ | ⟨bound, -, -, heq⟩⟩ :=
      bindParameter_cases bindable same index actual state
    · exact ⟨congrArg _ hbindings, fun other term h => by rwa [State.Bound, hbindings]⟩
    · rw [heq]
      exact ⟨List.length_set, fun other term h => (bound_set hindex other term).mpr (.inr h)⟩
    · rw [heq]
      exact State.Extends.refl state
  good state h := by
    obtain ⟨-, hbindings, -⟩ | ⟨-, ⟨hindex, heq⟩ | ⟨bound, -, -, heq⟩⟩ :=
      bindParameter_cases bindable same index actual state
    · intro other term hbound
      rw [State.Bound, hbindings] at hbound
      exact h other term hbound
    · rw [heq]
      intro other term hbound
      obtain ⟨-, rfl⟩ | hbound := (bound_set hindex other term).mp hbound
      · exact hactual
      · exact h other term hbound
    · rw [heq]
      exact h
  conflict state h := by
    obtain ⟨hfalse, -, -⟩ | ⟨-, ⟨hindex, heq⟩ | ⟨bound, -, -, heq⟩⟩ :=
      bindParameter_cases bindable same index actual state
    · rw [hfalse] at h
      exact absurd h Bool.false_ne_true
    · rw [heq]
    · rw [heq]
  binds state h := by
    obtain ⟨hfalse, -, -⟩ | ⟨-, ⟨hindex, heq⟩ | ⟨bound, hbound, -, heq⟩⟩ :=
      bindParameter_cases bindable same index actual state
    · rw [hfalse] at h
      exact absurd h Bool.false_ne_true
    · rintro other rfl
      rw [heq]
      exact ⟨actual, (bound_set hindex other actual).mpr (.inl ⟨rfl, rfl⟩)⟩
    · rintro other rfl
      rw [heq]
      exact ⟨bound, hbound⟩
  frame state h := by
    obtain ⟨hfalse, -, -⟩ | ⟨-, ⟨hindex, heq⟩ | ⟨bound, hbound, -, heq⟩⟩ :=
      bindParameter_cases bindable same index actual state
    · rw [hfalse] at h
      exact absurd h Bool.false_ne_true
    · rw [heq]
      intro other term hbound
      exact ((bound_set hindex other term).mp hbound).symm.imp_right (·.1)
    · rw [heq]
      exact fun other term hbound => .inl hbound
  sound state hgood h := by
    obtain ⟨hfalse, -, -⟩ | ⟨hbindable, ⟨hindex, heq⟩ | ⟨bound, hbound, hsame, heq⟩⟩ :=
      bindParameter_cases bindable same index actual state
    · rw [hfalse] at h
      exact absurd h Bool.false_ne_true
    · rw [heq]
      intro substitution hvalues hfits
      exact ⟨hbindable, hfits.2 index actual
        ((bound_set hindex index actual).mpr (.inl ⟨rfl, rfl⟩))⟩
    · rw [heq]
      intro substitution hvalues hfits
      obtain ⟨value, hvalue, hequal⟩ := hfits.2 index bound hbound
      have hgoodValue : Good value := hvalues value (List.mem_of_getElem? hvalue)
      exact ⟨hbindable, value, hvalue, hlawful.trans value bound actual hgoodValue
        (hgood index bound hbound) hactual hequal hsame⟩
  complete state hgood substitution hvalues hfits hmatches := by
    obtain ⟨hbindable, value, hvalue, hequal⟩ := hmatches
    have hgoodValue : Good value := hvalues value (List.mem_of_getElem? hvalue)
    obtain ⟨-, -, hfailed⟩ | ⟨-, ⟨hindex, heq⟩ | ⟨bound, hbound, hsame, heq⟩⟩ :=
      bindParameter_cases bindable same index actual state
    · obtain hnone | hunbindable | ⟨bound, hbound, hdiffers⟩ := hfailed
      · have hlt : index < state.bindings.length :=
          hfits.1 ▸ (List.getElem?_eq_some_iff.mp hvalue).1
        exact absurd hlt (Nat.not_lt.mpr (List.getElem?_eq_none_iff.mp hnone))
      · rw [hbindable] at hunbindable
        exact absurd hunbindable.symm Bool.false_ne_true
      · -- the value is equal to the term already bound and to the new one
        obtain ⟨value', hvalue', hequal'⟩ := hfits.2 index bound hbound
        cases Option.some.inj (hvalue.symm.trans hvalue')
        have hgoodBound := hgood index bound hbound
        have hsame := hlawful.trans bound value actual hgoodBound hgoodValue hactual
          (hlawful.symm value bound hgoodValue hgoodBound hequal') hequal
        rw [hsame] at hdiffers
        exact absurd hdiffers.symm Bool.false_ne_true
    · rw [heq]
      refine ⟨rfl, hfits.1.trans List.length_set.symm, fun other term hbound => ?_⟩
      obtain ⟨rfl, rfl⟩ | hbound := (bound_set hindex other term).mp hbound
      · exact ⟨value, hvalue, hequal⟩
      · exact hfits.2 other term hbound
    · rw [heq]
      exact ⟨rfl, hfits⟩
  local_ substitution substitution' hagree hmatches := by
    rw [← hagree index rfl]
    exact hmatches

end Infers

/-! ## Runs from no binding -/

/-- No parameter bound. -/
def start (count : ℕ) : State τ := { bindings := List.replicate count none, conflict := false }

theorem start_not_bound (count index : ℕ) (term : τ) : ¬(start count).Bound index term := by
  intro h
  have hmem := List.mem_of_getElem? h
  exact nomatch List.eq_of_mem_replicate hmem

theorem start_fits {count : ℕ} {substitution : List τ} (h : substitution.length = count) :
    (start count).Fits same substitution :=
  ⟨h.trans List.length_replicate.symm, fun index term hbound =>
    absurd hbound (start_not_bound count index term)⟩

/-- A substitution of good terms that the step is meant to match. -/
def Solves (Good : τ → Prop) (Matches : List τ → Prop) (count : ℕ) (substitution : List τ) :
    Prop :=
  substitution.length = count ∧ (∀ value ∈ substitution, Good value) ∧ Matches substitution

/-- The only solution, up to `same`. -/
def OnlySolution (Good : τ → Prop) (same : τ → τ → Bool) (Matches : List τ → Prop)
    (count : ℕ) (substitution : List τ) : Prop :=
  Solves Good Matches count substitution ∧ ∀ other, Solves Good Matches count other →
    List.Forall₂ (fun a b => same a b = true) substitution other

section Runs

variable {step : Step τ} {Matches : List τ → Prop} {Mentions : ℕ → Prop} {count : ℕ}

theorem good_start (h : Infers Good same step Matches Mentions) (index : ℕ) (term : τ)
    (hbound : (step (start count)).2.Bound index term) : Good term :=
  h.good _ (fun index term hstart => absurd hstart (start_not_bound count index term)) index term
    hbound

/-- A solution is matched, and agrees with every binding. -/
theorem matched_of_solves (h : Infers Good same step Matches Mentions) {substitution : List τ}
    (hsolves : Solves Good Matches count substitution) :
    (step (start count)).1 = true ∧ (step (start count)).2.Fits same substitution :=
  h.complete _ (fun index term hstart => absurd hstart (start_not_bound count index term))
    substitution hsolves.2.1 (start_fits hsolves.1) hsolves.2.2

/-- The values of the parameters, when every one is bound, are the only solution. -/
theorem onlySolution_of_matched (hlawful : Lawful Good same)
    (h : Infers Good same step Matches Mentions) (hmatched : (step (start count)).1 = true)
    {substitution : List τ}
    (hbindings : (step (start count)).2.bindings = substitution.map some) :
    OnlySolution Good same Matches count substitution := by
  have hlength : substitution.length = count := by
    have hnext := (h.extends_ (start count)).1
    rw [hbindings, List.length_map] at hnext
    exact hnext.trans List.length_replicate
  have hbound : ∀ index value, substitution[index]? = some value →
      (step (start count)).2.Bound index value := by
    intro index value hvalue
    rw [State.Bound, hbindings, List.getElem?_map, hvalue]
    rfl
  have hgood : ∀ value ∈ substitution, Good value := by
    intro value hvalue
    obtain ⟨index, hindex⟩ := List.mem_iff_getElem?.mp hvalue
    exact good_start h index value (hbound index value hindex)
  have hfits : (step (start count)).2.Fits same substitution := by
    refine ⟨by rw [hbindings, List.length_map], fun index term hterm => ?_⟩
    rw [State.Bound, hbindings, List.getElem?_map, Option.map_eq_some_iff] at hterm
    obtain ⟨value, hvalue, hsome⟩ := hterm
    cases Option.some.inj hsome
    exact ⟨term, hvalue, hlawful.refl term (hgood term (List.mem_of_getElem? hvalue))⟩
  have hmatches := h.sound _ (fun index term hstart => absurd hstart
    (start_not_bound count index term)) hmatched substitution hgood hfits
  refine ⟨⟨hlength, hgood, hmatches⟩, fun other hother => ?_⟩
  have hother' := (matched_of_solves h hother).2
  rw [List.forall₂_iff_get]
  refine ⟨hlength.trans hother.1.symm, fun index hindex hindex' => ?_⟩
  obtain ⟨value, hvalue, hsame⟩ := hother'.2 index _
    (hbound index _ (List.getElem?_eq_getElem hindex))
  have hget : other[index] = value :=
    Option.some.inj ((List.getElem?_eq_getElem hindex').symm.trans hvalue)
  rw [List.get_eq_getElem, List.get_eq_getElem, hget]
  exact hlawful.symm _ _ (hother.2.1 value (List.mem_of_getElem? hvalue))
    (hgood _ (List.getElem_mem hindex)) hsame

/-- A parameter that the step does not bind may have any value, so no solution is the only
one. -/
theorem not_onlySolution_of_unbound (hlawful : Lawful Good same)
    (h : Infers Good same step Matches Mentions) {a b : τ} (ha : Good a) (hb : Good b)
    (hdiffer : same a b = false) (hmatched : (step (start count)).1 = true) {index : ℕ}
    (hindex : (step (start count)).2.bindings[index]? = some none) (substitution : List τ) :
    ¬OnlySolution Good same Matches count substitution := by
  rintro ⟨hsolves, honly⟩
  have hmentions : ¬Mentions index := by
    intro hmentions
    obtain ⟨term, hterm⟩ := h.binds _ hmatched index hmentions
    rw [State.Bound, hindex] at hterm
    exact nomatch hterm
  have hlt : index < substitution.length := by
    have hlength := (h.extends_ (start count)).1
    have hbound := (List.getElem?_eq_some_iff.mp hindex).1
    rw [hlength, start, List.length_replicate] at hbound
    rwa [hsolves.1]
  have hother : ∀ c, Good c → same substitution[index] c = true := by
    intro c hc
    have hset : Solves Good Matches count (substitution.set index c) := by
      refine ⟨List.length_set.trans hsolves.1, fun value hvalue => ?_, ?_⟩
      · obtain hvalue | heq := List.mem_or_eq_of_mem_set hvalue
        · exact hsolves.2.1 value hvalue
        · exact heq ▸ hc
      · apply h.local_ substitution _ _ hsolves.2.2
        intro other hmentioned
        have hne : index ≠ other := fun heq => hmentions (heq ▸ hmentioned)
        rw [List.getElem?_set_ne hne]
    have hpair := (List.forall₂_iff_get.mp (honly _ hset)).2 index hlt
      (by rwa [List.length_set])
    simpa using hpair
  have hgood : Good substitution[index] := hsolves.2.1 _ (List.getElem_mem hlt)
  have hsame := hlawful.trans a _ b ha hgood hb (hlawful.symm _ a hgood ha (hother a ha))
    (hother b hb)
  rw [hsame] at hdiffer
  exact absurd hdiffer.symm Bool.false_ne_true

end Runs

end LanguageRuntime.Library.Matching
