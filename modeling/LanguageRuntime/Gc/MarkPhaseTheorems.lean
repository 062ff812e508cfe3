import LanguageRuntime.Gc.CollectTheorems
import Mathlib.Algebra.BigOperators.Intervals
import Mathlib.Algebra.Order.BigOperators.Group.Finset

/-!
# The incremental marking phase

Starting the phase, its steps and its end keep the invariant. The end marks again from the
current roots, so that it keeps what an atomic collection would keep, and the differential check
against a marking of its own never fails.
-/

namespace LanguageRuntime.Gc

open LanguageRuntime LanguageRuntime.Library

namespace Heap

/-! ## Changing the phase -/

/-- The same heap in another phase. -/
def withPhase (h : Heap) (phase : Phase) : Heap := { h with phase := phase }

section Phase

variable {h : Heap}

/-- Outside incremental compaction the phase takes no part in lookups. -/
theorem forwardedId_of_not_compacting (hc : h.incrementalCompactionActive = false) :
    h.forwardedId = fun _ => none := by
  funext id
  rw [forwardedId]
  unfold incrementalCompactionActive at hc
  split
  · next c hphase =>
    rw [hphase] at hc
    cases hc
  · rfl

theorem updates_withPhase (phase : Phase) (hc : h.incrementalCompactionActive = false)
    (hc' : (h.withPhase phase).incrementalCompactionActive = false) :
    Updates Object.SameButMark h (h.withPhase phase) where
  objects := (MarksOnly.refl h).objects
  length := rfl
  generations := rfl
  forwarded := by
    rw [forwardedId_of_not_compacting hc, forwardedId_of_not_compacting hc']

theorem same_withPhase (phase : Phase) (hc : h.incrementalCompactionActive = false)
    (hc' : (h.withPhase phase).incrementalCompactionActive = false) :
    h.SameButMarks (h.withPhase phase) :=
  ⟨updates_withPhase phase hc hc', rfl, rfl, rfl, rfl, rfl, rfl, rfl⟩

theorem Sound.withPhase {phase : Phase} (hs : h.Sound) (hc : h.incrementalCompactionActive = false)
    (hc' : (h.withPhase phase).incrementalCompactionActive = false) : (h.withPhase phase).Sound :=
  (same_withPhase phase hc hc').sound hs

/-- Outside incremental compaction, what resolves is current. -/
theorem Resolves.current {id : ObjectId} (hr : h.Resolves id)
    (hc : h.incrementalCompactionActive = false) : h.Current id :=
  let ⟨_, o, hres⟩ := hr
  ⟨o, (lookup_of_resolve hc hres).1⟩

end Phase

/-! ## The start -/

section Start

variable {h : Heap}

theorem Wf.triColour (hw : h.Wf) {worklist : List ObjectId} (hphase : h.phase = .marking worklist) :
    h.TriColour worklist := by
  have hsound := hw.phase
  rwa [PhaseSound, hphase] at hsound

theorem compactionActive_of_idle (hidle : h.phase = .idle) :
    h.incrementalCompactionActive = false := by
  rw [incrementalCompactionActive, hidle]

theorem compactionActive_of_marking {worklist : List ObjectId}
    (hphase : h.phase = .marking worklist) : h.incrementalCompactionActive = false := by
  rw [incrementalCompactionActive, hphase]

theorem idle_of_inactive (hm : h.incrementalMarkingActive = false)
    (hc : h.incrementalCompactionActive = false) : h.phase = .idle := by
  unfold incrementalMarkingActive at hm
  unfold incrementalCompactionActive at hc
  cases hphase : h.phase with
  | idle => rfl
  | _ => simp [hphase] at hm hc

theorem wp_startIncrementalMarking (hw : h.Wf) :
    wp startIncrementalMarking (fun _ h' => h'.Wf ∧ h.SameButMarks h') (fun _ h' => h' = h) h := by
  unfold startIncrementalMarking
  rw [wp_bind, wp_get]
  refine wp_ite (fun _ => rfl) fun hm => wp_ite (fun _ => rfl) fun hc => ?_
  rw [Bool.not_eq_true] at hm hc
  have hidle := idle_of_inactive hm hc
  have hs := hw.toSound
  refine wp_query_ok hs.validateBeforeCollection_eq_ok ?_
  have hroots : ∀ value ∈ h.traceCollectionRoots [], h.Valid value :=
    hs.traceCollectionRoots nofun
  obtain ⟨worklist, hok, hq⟩ := enqueueMarkValues_ok .major hroots []
  refine wp_query_ok (a := worklist) hok ?_
  rw [wp_modify]
  show (h.withPhase (.marking worklist)).Wf ∧ h.SameButMarks (h.withPhase (.marking worklist))
  have hu := updates_withPhase (.marking worklist) hc rfl
  refine ⟨⟨hs.withPhase hc rfl, fun id hid => ?_, ?_⟩, same_withPhase _ hc rfl⟩
  · rcases hq.origin id hid with hnil | hroot
    · exact nomatch hnil
    · exact hu.current ((hroots _ hroot id rfl).current hc)
  · -- nothing is marked yet
    intro _ _ ho hlive
    exact nomatch ((hw.unmarked hidle).countsAsLive ho hlive).1

end Start

/-! ## Steps -/

section Step

variable {h : Heap} {worklist : List ObjectId}

theorem TriColour.tracing (hs : h.Sound) (ht : h.TriColour worklist) :
    Tracing .major (fun _ => True) (fun _ => False) h worklist where
  valid slot o ho := hs.referenceFields ho
  closed _ _ _ _ := trivial
  sound _ _ _ _ := trivial
  grey id hid :=
    let ⟨o, ho⟩ := ht.grey id hid
    ⟨id.slot, o, resolve_of_lookup ho, trivial⟩
  traces := ht.traces
  promised _ := False.elim

theorem Tracing.triColour {live : ℕ → Prop} {promised : ObjectId → Prop}
    (ht : Tracing .major live promised h worklist) (hc : h.incrementalCompactionActive = false) :
    h.TriColour worklist where
  grey id hid :=
    let ⟨slot, o, hr, _⟩ := ht.grey id hid
    Resolves.current ⟨slot, o, hr⟩ hc
  traces := ht.traces

theorem Traces.withPhase {kind : CollectionKind} {phase : Phase} (ht : h.Traces kind worklist)
    (hu : Updates Object.SameButMark h (h.withPhase phase)) :
    (h.withPhase phase).Traces kind worklist := by
  intro slot o ho hlive id hid slot' o' hr
  obtain ⟨o₁, hr₁, -⟩ := hu.symm.resolve hr
  have hsame : o₁ = o' := by
    have ho₁ := objectAt_of_resolve hr₁
    have ho' : (h.withPhase phase).objectAt slot' = some o' := objectAt_of_resolve hr
    exact Option.some.inj (ho₁.symm.trans ho')
  exact ht slot o ho hlive id hid slot' o' (hsame ▸ hr₁)

theorem TriColour.withPhase {phase : Phase} (ht : h.TriColour worklist)
    (hu : Updates Object.SameButMark h (h.withPhase phase)) :
    (h.withPhase phase).TriColour worklist where
  grey id hid := hu.current (ht.grey id hid)
  traces := ht.traces.withPhase hu

/-- The marking steps leave the heap tri-coloured with the worklist they leave behind. -/
theorem wp_incrementalMarkLoop {budget : ℕ} {stored : List ObjectId} (hs : h.Sound)
    (ht : h.TriColour worklist) (hphase : h.phase = .marking stored)
    (hstored : budget = 0 → stored = worklist) :
    wp (incrementalMarkLoop budget worklist) (fun _ h' => h'.Wf ∧ h.SameButMarks h')
      (fun _ _ => False) h := by
  induction budget generalizing h worklist stored with
  | zero =>
    refine ⟨⟨hs, ?_⟩, (MarksOnly.refl h).same⟩
    rw [PhaseSound, hphase, hstored rfl]
    exact ht
  | succ budget ih =>
    have hc := compactionActive_of_marking hphase
    unfold incrementalMarkLoop
    rw [wp_bind]
    refine wp_mono (wp_scanNextMarkObject (ht.tracing hs)) (fun result h' hpost => ?_)
      fun _ _ he => he
    obtain ⟨hm, hresult⟩ := hpost
    have hc' : h'.incrementalCompactionActive = false := by
      rw [incrementalCompactionActive, hm.phase]
      exact hc
    have hs' := hm.sound hs
    cases result with
    | none =>
      obtain ⟨rfl, ht'⟩ := hresult
      have hu := updates_withPhase (.marking []) hc' rfl
      exact ⟨⟨hs'.withPhase hc' rfl, (ht'.triColour hc').withPhase hu⟩,
        hm.same.trans (same_withPhase _ hc' rfl)⟩
    | some worklist' =>
      obtain ⟨ht', -⟩ := hresult
      have hu := updates_withPhase (.marking worklist') hc' rfl
      dsimp only
      rw [wp_bind, wp_modify, wp_bind]
      have hsame := hm.same.trans (same_withPhase (.marking worklist') hc' rfl)
      exact wp_mono (ih (hs'.withPhase hc' rfl) ((ht'.triColour hc').withPhase hu) rfl fun _ => rfl)
        (fun _ _ hpost => ⟨hpost.1, hsame.trans hpost.2⟩) fun _ _ he => he

/-- No marked object refers to an object that is neither marked nor grey. -/
theorem Wf.validateIncrementalMarking_eq_ok (hw : h.Wf) : h.validateIncrementalMarking = .ok () := by
  unfold validateIncrementalMarking
  split
  · next worklist hphase =>
    refine forM_eq_ok.mpr fun slot hslot => ?_
    obtain ⟨i, hi, rfl⟩ := List.mem_iff_getElem.mp hslot
    cases ho : h.objects[i] with
    | none => rfl
    | some o =>
      have ho' : h.objectAt i = some o := (List.getD_eq_getElem _ _ hi).trans ho
      dsimp only
      split
      · next hmarked =>
        refine forM_eq_ok.mpr fun value hvalue => ?_
        cases value with
        | object id =>
          obtain ⟨slot', target, hr⟩ := valid_object.mp (hw.referenceFields ho' _ hvalue)
          have hcovered : (!target.marked && !worklist.contains id) = false := by
            rcases (hw.triColour hphase).traces i o ho' hmarked id hvalue slot' target hr with
              hlive | hgrey
            · have htarget : target.marked = true := hlive
              simp [htarget]
            · simp [hgrey]
          simp only [hr, ok_bind, hcovered]
          rfl
        | _ => rfl
      · rfl
  · rfl

theorem wp_incrementalMarkStep (budget : ℕ) (hw : h.Wf) :
    wp (incrementalMarkStep budget) (fun _ h' => h'.Wf ∧ h.SameButMarks h') (fun _ h' => h' = h)
      h := by
  unfold incrementalMarkStep
  rw [wp_bind, wp_get]
  split
  · next worklist hphase =>
    rw [wp_bind]
    refine wp_mono (wp_incrementalMarkLoop hw.toSound (hw.triColour hphase) hphase fun _ => rfl)
      (fun _ h' hpost => ?_) fun _ _ he => he.elim
    exact wp_query_ok hpost.1.validateIncrementalMarking_eq_ok hpost
  · rfl

end Step

/-! ## The differential marking -/

/-- The heap with the marks a bit vector gives. -/
def markedBy (h : Heap) (live : List Bool) : Heap :=
  { h with objects := h.objects.mapIdx fun slot =>
      Option.map fun o => { o with marked := live.getD slot false } }

/-- The number of references in objects without a bit. -/
def pendingFields (h : Heap) (live : List Bool) : ℕ :=
  ∑ slot ∈ Finset.range h.objects.length, if live.getD slot false then 0 else
    (h.objectAt slot).elim 0 fun o => o.payload.referenceFields.length

section Differential

variable {h : Heap} {bits : List Bool} {worklist : List ObjectId} {live : ℕ → Prop}
  {promised : ObjectId → Prop}

theorem objectAt_markedBy (h : Heap) (bits : List Bool) (slot : ℕ) :
    (h.markedBy bits).objectAt slot =
      (h.objectAt slot).map fun o => { o with marked := bits.getD slot false } := by
  have hget : h.objectAt slot = h.objects[slot]?.getD none := List.getD_eq_getElem?_getD
  show (h.objects.mapIdx _).getD slot none = _
  rw [hget, List.getD_eq_getElem?_getD, List.getElem?_mapIdx]
  cases h.objects[slot]? <;> rfl

theorem marksOnly_markedBy (h : Heap) (bits : List Bool) : h.MarksOnly (h.markedBy bits) where
  objects slot := by
    rw [objectAt_markedBy]
    cases h.objectAt slot with
    | none => exact .none
    | some o => exact .some rfl
  length := List.length_mapIdx
  rest := rfl

/-- Setting a bit marks the object. -/
theorem putObject_markedBy {slot : ℕ} {o : Object} (ho : h.objectAt slot = some o)
    (hlength : bits.length = h.objects.length) :
    (h.markedBy bits).putObject slot { o with marked := true } = h.markedBy (bits.set slot true) := by
  have hslot := lt_length_of_objectAt ho
  have hslot' : slot < (h.markedBy bits).objects.length := by
    rwa [(marksOnly_markedBy h bits).length]
  have hobjects : ((h.markedBy bits).putObject slot { o with marked := true }).objects =
      (h.markedBy (bits.set slot true)).objects := by
    refine ext_getD none ?_ fun i => ?_
    · rw [length_objects_putObject, (marksOnly_markedBy h bits).length,
        (marksOnly_markedBy h _).length]
    · show ((h.markedBy bits).putObject slot _).objectAt i = (h.markedBy _).objectAt i
      rw [objectAt_putObject _ hslot', objectAt_markedBy, objectAt_markedBy, getD_set]
      by_cases heq : i = slot
      · subst heq
        rw [if_pos rfl, if_pos ⟨rfl, hlength ▸ hslot⟩, ho]
        rfl
      · rw [if_neg heq, if_neg fun hand => heq hand.1.symm]
  exact congrArg (fun objects => { h with objects := objects }) hobjects

theorem pendingFields_set {slot : ℕ} {o : Object} (ho : h.objectAt slot = some o)
    (hlength : bits.length = h.objects.length) (hbit : bits.getD slot false = false) :
    h.pendingFields (bits.set slot true) + o.payload.referenceFields.length =
      h.pendingFields bits := by
  have hslot := lt_length_of_objectAt ho
  have hmem : slot ∈ Finset.range h.objects.length := Finset.mem_range.mpr hslot
  unfold pendingFields
  rw [← Finset.add_sum_erase _ _ hmem, ← Finset.add_sum_erase _ _ hmem,
    getD_set_self _ _ (hlength ▸ hslot), if_pos rfl, hbit, ho, Nat.zero_add]
  have hrest : ∀ i ∈ (Finset.range h.objects.length).erase slot,
      (if (bits.set slot true).getD i false = true then 0 else
        (h.objectAt i).elim 0 fun o => o.payload.referenceFields.length) =
      if bits.getD i false = true then 0 else
        (h.objectAt i).elim 0 fun o => o.payload.referenceFields.length := by
    intro i hi
    rw [getD_set_ne _ _ _ (Finset.ne_of_mem_erase hi).symm]
  rw [Finset.sum_congr rfl hrest, Nat.add_comm]
  rfl

/-- The fuel of the differential drain exceeds what it can pop. -/
theorem pendingFields_lt_differentialFuel (h : Heap) (bits : List Bool) (worklist : List ObjectId) :
    worklist.length + h.pendingFields bits < h.differentialFuel worklist := by
  have hsum : ∀ objects : List (Option Object),
      (objects.map fun slot => slot.elim 0 fun o => o.payload.referenceFields.length).sum =
        ∑ slot ∈ Finset.range objects.length,
          (objects.getD slot none).elim 0 fun o => o.payload.referenceFields.length := by
    intro objects
    induction objects with
    | nil => rfl
    | cons slot objects ih =>
      rw [List.map_cons, List.sum_cons, List.length_cons, Finset.sum_range_succ', ih, Nat.add_comm]
      rfl
  have hle : h.pendingFields bits ≤ ∑ slot ∈ Finset.range h.objects.length,
      (h.objects.getD slot none).elim 0 fun o => o.payload.referenceFields.length := by
    refine Finset.sum_le_sum fun slot _ => ?_
    split
    · exact Nat.zero_le _
    · exact le_rfl
  unfold differentialFuel
  rw [hsum]
  omega

/-- The differential drain sets a bit where the marking sets a mark. -/
theorem yields_differentialDrain {fuel : ℕ} (hlength : bits.length = h.objects.length)
    (ht : Tracing .major live promised (h.markedBy bits) worklist)
    (hfuel : worklist.length + h.pendingFields bits < fuel) :
    Yields (h.differentialDrain fuel worklist bits) (fun bits' =>
      bits'.length = h.objects.length ∧ Tracing .major live promised (h.markedBy bits') [] ∧
        ((h.markedBy bits').unmarkedCount < (h.markedBy bits).unmarkedCount ∨
          bits' = bits ∧ ∀ id ∈ worklist, (h.markedBy bits).NamesLive .major id))
      fun _ => False := by
  induction fuel generalizing bits worklist with
  | zero => omega
  | succ fuel ih =>
    cases worklist with
    | nil => exact ⟨hlength, ht, .inr ⟨rfl, nofun⟩⟩
    | cons id worklist =>
      rw [List.length_cons] at hfuel
      have hm := marksOnly_markedBy h bits
      obtain ⟨slot, marked, hmarked, -⟩ := ht.grey id List.mem_cons_self
      obtain ⟨o, hr, hs⟩ := hm.resolve_symm hmarked
      have ho := objectAt_of_resolve hr
      have hobject : marked = { o with marked := bits.getD slot false } := by
        have hat := objectAt_of_resolve hmarked
        rw [objectAt_markedBy, ho] at hat
        exact (Option.some.inj hat).symm
      subst hobject
      unfold differentialDrain
      simp only [hr, ok_bind]
      by_cases hbit : bits.getD slot false = true
      · rw [if_pos hbit]
        refine (ih hlength (ht.skip hmarked hbit) (by omega)).mono (fun bits' hpost => ?_)
          fun _ he => he
        obtain ⟨hlength', ht', hcount⟩ := hpost
        refine ⟨hlength', ht', hcount.imp_right fun hand => ⟨hand.1, fun id' hid' => ?_⟩⟩
        rcases List.mem_cons.mp hid' with rfl | hid'
        · exact ⟨slot, _, hmarked, hbit⟩
        · exact hand.2 id' hid'
      · rw [if_neg hbit]
        rw [Bool.not_eq_true] at hbit
        have hput := putObject_markedBy ho hlength
        have hq : ((h.markedBy bits).putObject slot { o with marked := true }).Enqueued .major
            worklist o.payload.referenceFieldsForLifoMarking
            (o.payload.referenceFields.filterMap Value.object? ++ worklist) := by
          rw [Payload.referenceFieldsForLifoMarking]
          refine ⟨List.subset_append_right _ _, fun id' hid' => ?_, fun id' hid' => ?_⟩
          · rcases List.mem_append.mp hid' with hid' | hid'
            · exact .inr (List.mem_reverse.mpr (Value.mem_filterMap_object?.mp hid'))
            · exact .inl hid'
          · exact .inl (List.mem_append_left _
              (Value.mem_filterMap_object?.mpr (List.mem_reverse.mp hid')))
        have ht' := ht.mark (o := { o with marked := bits.getD slot false }) hmarked hq
        have hcount := unmarkedCount_putObject (o := { o with marked := bits.getD slot false })
          (objectAt_of_resolve hmarked) hbit
        rw [hput] at ht' hcount
        have hpending := pendingFields_set ho hlength hbit
        have hfields : (o.payload.referenceFields.filterMap Value.object?).length ≤
            o.payload.referenceFields.length := List.length_filterMap_le _ _
        refine (ih (by rw [List.length_set, hlength]) ht' ?_).mono (fun bits' hpost => ?_)
          fun _ he => he
        · rw [List.length_append]
          omega
        · obtain ⟨hlength', ht'', hcount'⟩ := hpost
          refine ⟨hlength', ht'', .inl ?_⟩
          rcases hcount' with hlt | ⟨rfl, -⟩
          · omega
          · omega

/-- A pass over the ephemerons sees the bits where `activateEphemeron` sees the marks. -/
theorem activateDifferentialEphemeron_eq (bits : List Bool) (state : List ObjectId × Bool)
    {owner : ObjectId} {o : Object} (ho : h.lookup owner = some o)
    (hvalid : ∀ value ∈ o.payload.allFields, h.Valid value) :
    h.activateDifferentialEphemeron bits state owner =
      (h.markedBy bits).activateEphemeron .major state owner := by
  have hm := marksOnly_markedBy h bits
  have hmarked : ∀ id slot o, h.resolve id = .ok (slot, o) →
      (h.markedBy bits).resolve id = .ok (slot, { o with marked := bits.getD slot false }) := by
    intro id slot o hr
    obtain ⟨o', hr', -⟩ := hm.resolve hr
    have hat := objectAt_of_resolve hr'
    rw [objectAt_markedBy, objectAt_of_resolve hr] at hat
    rw [hr', ← Option.some.inj hat]
  have hr := resolve_of_lookup ho
  unfold activateDifferentialEphemeron activateEphemeron
  simp only [hr, hmarked owner _ _ hr, ok_bind]
  have hlive : ∀ (o : Object) (bit : Bool),
      ({ o with marked := bit } : Object).countsAsLive .major = bit := fun _ _ => rfl
  simp only [hlive]
  cases hp : o.payload with
  | ephemeron key value valueIsRef =>
    cases key with
    | object key =>
      obtain ⟨keySlot, keyObject, hkey⟩ : h.Resolves key :=
        valid_object.mp (hvalid _ (by simp [hp, Payload.allFields, Payload.weakFields]))
      have hkey' : h.checkedSlot key = .ok keySlot := checkedSlot_eq_ok.mpr ⟨_, hkey⟩
      simp only [hkey', hmarked key _ _ hkey, ok_bind]
      by_cases hvalue : valueIsRef = true ∧ value.isObject = true
      · obtain ⟨rfl, hobject⟩ := hvalue
        obtain ⟨valueId, rfl⟩ := Value.isObject_iff.mp hobject
        obtain ⟨valueSlot, valueObject, hvr⟩ : h.Resolves valueId := valid_object.mp
          (hvalid _ (by simp [hp, Payload.allFields, Payload.weakFields]))
        have hvalue' : h.checkedSlot valueId = .ok valueSlot := checkedSlot_eq_ok.mpr ⟨_, hvr⟩
        have hnext : (h.markedBy bits).enqueueMarkValue .major state.1 (.object valueId) = _ :=
          enqueueMarkValue_object state.1 (hmarked valueId _ _ hvr)
        simp only [hvalue', hmarked valueId _ _ hvr, ok_bind, hlive, hnext]
        cases bits.getD valueSlot false <;> rfl
      · cases valueIsRef <;> cases value <;> first | rfl | exact absurd ⟨rfl, rfl⟩ hvalue
    | _ =>
      dsimp only
      split <;> rfl
  | _ =>
    dsimp only
    split <;> rfl

theorem foldlM_activateDifferentialEphemeron_eq (bits : List Bool) {owners : List ObjectId}
    (howners : ∀ owner ∈ owners, ∃ o, h.lookup owner = some o ∧
      ∀ value ∈ o.payload.allFields, h.Valid value) (state : List ObjectId × Bool) :
    owners.foldlM (h.activateDifferentialEphemeron bits) state =
      owners.foldlM ((h.markedBy bits).activateEphemeron .major) state := by
  induction owners generalizing state with
  | nil => rfl
  | cons owner owners ih =>
    obtain ⟨o, ho, hvalid⟩ := howners owner List.mem_cons_self
    rw [List.foldlM_cons, List.foldlM_cons, activateDifferentialEphemeron_eq bits state ho hvalid]
    congr 1
    funext state'
    exact ih (fun x hx => howners x (List.mem_cons_of_mem _ hx)) state'

theorem yields_differentialFixpoint {fuel : ℕ} (hlength : bits.length = h.objects.length)
    (he : h.EphemeronsSound) (ht : Tracing .major live promised (h.markedBy bits) [])
    (hgate : ∀ owner key value, live owner → live key → h.EphemeronReference owner key value →
      live value) (hfuel : (h.markedBy bits).unmarkedCount < fuel) :
    Yields (h.differentialFixpoint fuel bits) (fun bits' =>
      Tracing .major live promised (h.markedBy bits') [] ∧
        (h.markedBy bits').EphemeronClosed .major) fun _ => False := by
  induction fuel generalizing bits with
  | zero => omega
  | succ fuel ih =>
    have hm := marksOnly_markedBy h bits
    have he' := he.marksOnly hm
    obtain ⟨⟨worklist, progressed⟩, hok, ha⟩ := activateEphemerons_ok .major he'.valid ([], false)
    unfold differentialFixpoint
    have hpass : h.ephemerons.foldlM (h.activateDifferentialEphemeron bits) ([], false) =
        .ok (worklist, progressed) := by
      rw [foldlM_activateDifferentialEphemeron_eq bits he.valid]
      exact hok
    rw [hpass, ok_bind, yields_bind]
    cases progressed with
    | false =>
      -- nothing was enqueued, so there is nothing to drain
      obtain ⟨rfl, hclosed⟩ := ha.ephemeronClosed he'
      exact ⟨ht, hclosed⟩
    | true =>
      obtain hprogress | ⟨id, hid, -, hdead⟩ := ha.progress rfl
      · exact nomatch hprogress
      have hgate' : ∀ owner key value, live owner → live key →
          (h.markedBy bits).EphemeronReference owner key value → live value :=
        fun owner key value ho hk hr => hgate owner key value ho hk (hm.same.ephemeronReference.mp hr)
      refine (yields_differentialDrain hlength (ht.activated hgate' he' ha)
        (pendingFields_lt_differentialFuel h bits worklist)).mono (fun bits' hpost => ?_)
        fun _ he => he
      obtain ⟨hlength', ht', hcount⟩ := hpost
      have hlt := hcount.resolve_right fun hsame => hdead (hsame.2 id hid)
      exact ih hlength' ht' (by omega)

/-- The differential marking finds the live objects. -/
theorem validateIncrementalResultAgainstAtomic_eq_ok (hs : h.Sound) {extraRoots : List Value}
    (hextra : ∀ value ∈ extraRoots, h.Valid value)
    (hlive : ∀ slot, (∃ o, h.objectAt slot = some o ∧ o.marked = true) ↔
      h.Live .major (h.traceCollectionRoots extraRoots) slot) :
    h.validateIncrementalResultAgainstAtomic extraRoots = .ok () := by
  have hroots := hs.traceCollectionRoots hextra
  unfold validateIncrementalResultAgainstAtomic
  generalize h.traceCollectionRoots extraRoots = roots at hroots hlive
  have hstart : Tracing .major (h.Live .major roots) (fun id => .object id ∈ roots)
      (h.markedBy (List.replicate h.objects.length false))
      (roots.filterMap Value.object?).reverse := by
    have hm := marksOnly_markedBy h (List.replicate h.objects.length false)
    have hu : (h.markedBy (List.replicate h.objects.length false)).Unmarked := by
      intro slot o ho
      rw [objectAt_markedBy, Option.map_eq_some_iff] at ho
      obtain ⟨o, -, rfl⟩ := ho
      exact getD_replicate_default _ _ _
    have hmem : ∀ id, id ∈ (roots.filterMap Value.object?).reverse ↔ .object id ∈ roots := by
      intro id
      rw [List.mem_reverse, Value.mem_filterMap_object?]
    have hq : (h.markedBy (List.replicate h.objects.length false)).Enqueued .major []
        (roots ++ []) (roots.filterMap Value.object?).reverse := by
      rw [List.append_nil]
      exact ⟨nofun, fun id hid => .inr ((hmem id).mp hid), fun id hid => .inl ((hmem id).mpr hid)⟩
    rw [← hm.same.live]
    exact (hm.sound hs).tracing hu hq nofun nofun fun value hvalue =>
      hm.updates.valid (hroots value hvalue)
  have hdrain := yields_differentialDrain (List.length_replicate ..) hstart
    (pendingFields_lt_differentialFuel h _ _)
  obtain ⟨bits, hbits, hlength, ht, -⟩ := hdrain.exists_ok
  have hfixpoint := yields_differentialFixpoint hlength hs.ephemeronsSound ht
    (fun _ _ _ ho hk hr => .gate ho hk hr)
    (Nat.lt_succ_of_le (h.markedBy bits).unmarkedCount_le)
  obtain ⟨bits', hbits', ht', hclosed⟩ := hfixpoint.exists_ok
  rw [(marksOnly_markedBy h bits).length] at hbits'
  have hm := marksOnly_markedBy h bits'
  dsimp only
  rw [hbits, ok_bind, hbits', ok_bind]
  refine forM_eq_ok.mpr fun slot _ => ?_
  split
  · next o ho =>
    have hset := ht'.countsAsLive_iff hm hclosed slot
    rw [← hlive slot, objectAt_markedBy, ho] at hset
    have hsame : o.marked = bits'.getD slot false := by
      rw [Bool.eq_iff_iff]
      constructor
      · intro hmarked
        obtain ⟨o', heq, hl⟩ := hset.mpr ⟨o, rfl, hmarked⟩
        cases heq
        exact hl
      · intro hbit
        obtain ⟨o', heq, hl⟩ := hset.mp ⟨_, rfl, hbit⟩
        cases heq
        exact hl
    rw [if_pos hsame]
  · rfl

end Differential

/-! ## The end -/

section Finish

variable {h : Heap} {extraRoots : List Value}

theorem unmarked_clearMarks (h : Heap) : h.clearMarks.Unmarked := by
  intro slot o ho
  rw [objectAt_clearMarks, Option.map_eq_some_iff] at ho
  obtain ⟨o, -, rfl⟩ := ho
  rfl

theorem marksOnly_clearMarks (h : Heap) : h.MarksOnly h.clearMarks where
  objects slot := by
    rw [objectAt_clearMarks]
    cases h.objectAt slot with
    | none => exact .none
    | some o => exact .some rfl
  length := List.length_map _
  rest := rfl

/-- The end of marking marks what an atomic collection of the same heap would mark. -/
theorem wp_finishIncrementalMarkingLiveness (hw : h.Wf) {worklist : List ObjectId}
    (hphase : h.phase = .marking worklist) (hextra : ∀ value ∈ extraRoots, h.Valid value) :
    wp (finishIncrementalMarkingLiveness extraRoots)
      (fun _ h' => h.SameButMarks h' ∧ h'.phase = .marking [] ∧ ∀ slot,
        (∃ o, h'.objectAt slot = some o ∧ o.countsAsLive .major = true) ↔
          h.Live .major (h.traceCollectionRoots extraRoots) slot)
      (fun _ _ => False) h := by
  have hc := compactionActive_of_marking hphase
  unfold finishIncrementalMarkingLiveness
  rw [wp_bind, wp_get]
  refine wp_ite (fun hinactive => ?_) fun _ => ?_
  · rw [incrementalMarkingActive, hphase] at hinactive
    exact nomatch hinactive
  refine wp_query_ok hw.validateIncrementalMarking_eq_ok ?_
  rw [wp_bind, wp_modify, wp_bind, wp_modify]
  show wp _ _ _ (h.clearMarks.withPhase (.marking []))
  have hm : h.SameButMarks (h.clearMarks.withPhase (.marking [])) :=
    (same_withPhase (.marking []) hc rfl).trans (marksOnly_clearMarks (h.withPhase (.marking []))).same
  have hs := hm.sound hw.toSound
  have hvalid : ∀ value ∈ extraRoots, (h.clearMarks.withPhase (.marking [])).Valid value :=
    fun value hvalue => hm.updates.valid (hextra value hvalue)
  rw [wp_bind]
  refine wp_mono (wp_markCollectionRoots hs (unmarked_clearMarks h) hvalid)
    (fun _ h₁ hpost => ?_) fun _ _ he => he
  obtain ⟨hm₁, hlive⟩ := hpost
  have hm' := hm.trans hm₁.same
  rw [hm.traceCollectionRoots, hm.live] at hlive
  rw [wp_query, validateIncrementalResultAgainstAtomic_eq_ok (hm'.sound hw.toSound)
    (fun value hvalue => hm'.updates.valid (hextra value hvalue)) ?_]
  · exact ⟨hm', hm₁.phase, hlive⟩
  · rw [hm'.traceCollectionRoots, hm'.live]
    exact hlive

/-- Once the live objects are marked, nothing is grey. -/
theorem Marked.triColour {roots : List Value} (hm : h.Marked .major roots) : h.TriColour [] where
  grey := nofun
  traces slot o ho hlive id hid slot' o' hr := by
    obtain ⟨slot₁, o₁, hr₁, hlive₁⟩ := hm.strong slot o ho hlive id hid
    rw [hr] at hr₁
    cases hr₁
    exact .inl hlive₁

/-- The end of marking keeps exactly the live objects, as an atomic collection does. If it runs
out of generations it stays in the marking phase, with nothing grey. -/
theorem wp_finishIncrementalMarkingImpl (hw : h.Wf) {worklist : List ObjectId}
    (hphase : h.phase = .marking worklist) (hextra : ∀ value ∈ extraRoots, h.Valid value) :
    wp (finishIncrementalMarkingImpl extraRoots)
      (fun cells h' => ∃ φ, Collected (h.Live .major (h.traceCollectionRoots extraRoots)) h h' φ ∧
        cells = extraRoots.map (h.forwardRoot φ))
      (fun e h' => (h.SameButMarks h' ∧ h'.phase = .marking [] ∧ h'.Wf) ∧
        e = generationExhausted ∧
          h.RunsOut (h.Live .major (h.traceCollectionRoots extraRoots))) h := by
  unfold finishIncrementalMarkingImpl
  rw [wp_bind]
  refine wp_mono (wp_finishIncrementalMarkingLiveness hw hphase hextra) (fun _ h₁ hpost => ?_)
    fun _ _ he => he.elim
  obtain ⟨hm, hphase₁, hlive⟩ := hpost
  refine wp_mono (hm.wp_compactMarkedObjects hw.toSound hextra hlive) (fun _ _ hpost => hpost)
    fun e h' he => ?_
  obtain ⟨rfl, he⟩ := he
  have hmarked := hm.marked hw.toSound (hw.toSound.traceCollectionRoots hextra) hlive
  have hp : h'.PhaseSound := by
    rw [PhaseSound, hphase₁]
    exact hmarked.triColour
  exact ⟨⟨hm, hphase₁, hm.sound hw.toSound, hp⟩, he⟩

end Finish

end Heap

end LanguageRuntime.Gc
