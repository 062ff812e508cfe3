import LanguageRuntime.Gc.CompositionTheorems

/-!
# The end of incremental marking

What a collection makes of a heap is determined by the heap and the objects it keeps. The ends
of an incremental marking cycle and an atomic collection keep the same objects, so they give
the same heap.
-/

namespace LanguageRuntime.Gc

open LanguageRuntime LanguageRuntime.Library

namespace Heap

/-! ## What a collection gives is determined -/

/-- The heaps are equal, the ghosts aside. -/
def Agrees (h h' : Heap) : Prop :=
  h' = { h with nextSerial := h'.nextSerial, issued := h'.issued }

section Unique

variable {h h₁ h₂ : Heap} {kind : CollectionKind} {roots : List Value} {live : ℕ → Prop}
  {φ ψ : ℕ → Option ObjectId} {slot : ℕ}

/-- What is live is allocated. -/
theorem exists_objectAt_of_live (hl : h.Live kind roots slot) : ∃ o, h.objectAt slot = some o := by
  cases hl with
  | init hinit =>
    rcases hinit with ⟨-, o, ho, -⟩ | ⟨id, o, -, hr⟩
    · exact ⟨o, ho⟩
    · exact ⟨o, objectAt_of_resolve hr⟩
  | edge _ hedge =>
    obtain ⟨_, _, o', -, -, hr⟩ := hedge
    exact ⟨o', objectAt_of_resolve hr⟩
  | gate _ _ hgate =>
    obtain ⟨_, _, _, _, o', -, -, -, hr⟩ := hgate
    exact ⟨o', objectAt_of_resolve hr⟩

/-- A survivor gets the same identifier from every collection that keeps the same objects. -/
theorem Collected.ids_eq (hc : Collected live h h₁ φ) (hc' : Collected live h h₂ ψ) : φ = ψ := by
  funext slot
  by_cases hlive : live slot
  · obtain ⟨id, hid⟩ := Option.isSome_iff_exists.mp ((hc.survivors slot).mpr hlive)
    obtain ⟨id', hid'⟩ := Option.isSome_iff_exists.mp ((hc'.survivors slot).mpr hlive)
    have hslot : id.slot = id'.slot := by rw [hc.slides slot id hid, hc'.slides slot id' hid']
    have hgeneration := hc.generations slot id hid
    rw [hslot, hc'.generations slot id' hid', Except.ok.injEq] at hgeneration
    obtain ⟨s, g⟩ := id
    obtain ⟨s', g'⟩ := id'
    dsimp only at hslot hgeneration
    rw [hid, hid', hslot, hgeneration]
  · have hnone : ∀ {χ : ℕ → Option ObjectId}, ((χ slot).isSome = true ↔ live slot) →
        χ slot = none := fun hiff => by
      rw [← Option.not_isSome_iff_eq_none]
      exact fun hsome => hlive (hiff.mp hsome)
    rw [hnone (hc.survivors slot), hnone (hc'.survivors slot)]

theorem Collected.objectAt_imp (hc : Collected live h h₁ φ) (hc' : Collected live h h₂ φ)
    {o : Object} (ho : h₁.objectAt slot = some o) : h₂.objectAt slot = some o := by
  obtain ⟨source, o₁, id, hsource, hid, rfl⟩ := hc.relocates.origin slot o ho
  have hmoved := hc.moved source o₁ id hsource hid
  rw [ho] at hmoved
  rw [hmoved]
  exact hc'.moved source o₁ id hsource hid

/-- Two collections that keep the same objects give the same heap. -/
theorem Collected.agrees (hc : Collected live h h₁ φ) (hc' : Collected live h h₂ ψ)
    (hlive : ∀ slot, live slot → ∃ o, h.objectAt slot = some o) : h₁.Agrees h₂ := by
  obtain rfl := hc.ids_eq hc'
  have hobjects : h₂.objects = h₁.objects := by
    refine ext_getD none (hc'.length.trans hc.length.symm) fun slot => ?_
    show h₂.objectAt slot = h₁.objectAt slot
    cases ho : h₁.objectAt slot with
    | some o => exact hc.objectAt_imp hc' ho
    | none =>
      cases ho' : h₂.objectAt slot with
      | none => rfl
      | some o => exact nomatch ho.symm.trans (hc'.objectAt_imp hc ho')
  have hgenerations : h₂.generations = h₁.generations := by
    have hlength : h₂.generations.length = h₁.generations.length := by
      rw [hc.wf.storage.lengths, hc'.wf.storage.lengths, hc.length, hc'.length]
    refine ext_getD 0 hlength fun slot => ?_
    show h₂.generationAt slot = h₁.generationAt slot
    by_cases hmoved : ∃ source id, φ source = some id ∧ id.slot = slot
    · obtain ⟨source, id, hid, rfl⟩ := hmoved
      obtain ⟨o, ho⟩ := hlive source ((hc.survivors source).mp (by rw [hid]; rfl))
      obtain ⟨o₁, ho₁, -⟩ := hc.relocates.target source o id ho hid
      obtain ⟨o₂, ho₂, -⟩ := hc'.relocates.target source o id ho hid
      rw [(lookup_eq_some.mp ho₁).2.1, (lookup_eq_some.mp ho₂).2.1]
    · have hstays : ∀ source id, φ source = some id → id.slot ≠ slot :=
        fun source id hid heq => hmoved ⟨source, id, hid, heq⟩
      rw [hc.kept slot hstays, hc'.kept slot hstays]
  have hrootCells := hc'.rootCells.trans hc.rootCells.symm
  have hhandleRoots := hc'.handleRoots.trans hc.handleRoots.symm
  have hweakRefs := hc'.weakRefs.trans hc.weakRefs.symm
  have hephemerons := hc'.ephemerons.trans hc.ephemerons.symm
  have hinternTable := hc'.internTable.trans hc.internTable.symm
  have hstressConfig := hc'.stressConfig.trans hc.stressConfig.symm
  have hrememberedSet := hc'.rememberedSet.trans hc.rememberedSet.symm
  have hphase := hc'.phase.trans hc.phase.symm
  rw [Agrees, Heap.mk.injEq]
  exact ⟨hrootCells, hhandleRoots, hstressConfig, hobjects, hgenerations, hrememberedSet,
    hweakRefs, hinternTable, hephemerons, hphase, rfl, rfl⟩

/-- A collection that succeeds has a generation for every survivor. -/
theorem Collected.not_runsOut (hc : Collected live h h₁ φ) : ¬h.RunsOut live := by
  rintro ⟨slot, hlive, hmoves, hmax⟩
  obtain ⟨id, hid⟩ := Option.isSome_iff_exists.mp ((hc.survivors slot).mpr hlive)
  have hgeneration := hc.generations slot id hid
  rw [← hc.slides slot id hid] at hmoves hmax
  exact not_exhausted_of_destinationGeneration hgeneration hmoves hmax

end Unique

/-! ## Through an incremental compaction -/

section HandOver

variable {h h₁ h' marked : Heap} {planned : CompactionPlan} {slot : ℕ}

/-- The plan made of a heap moves its marked objects. -/
theorem PlannedUpTo.composeIds_eq (hp : marked.PlannedUpTo marked.objects.length planned)
    (hst : marked.Storage) : composeIds marked.liveIds (marked.preparedTables planned).finalIds =
      (marked.preparedTables planned).finalIds := by
  funext slot
  rw [composeIds]
  cases hlive : marked.liveIds slot with
  | some id =>
    obtain ⟨rfl, o, ho, -⟩ := liveIds_eq_some.mp hlive
    rw [Option.bind_some, hst.currentId_eq ho]
  | none =>
    cases hid : (marked.preparedTables planned).finalIds slot with
    | none => rfl
    | some id =>
      obtain ⟨e, he, hslot, -⟩ := IncrementalCompaction.finalIds_eq_some hid
      obtain ⟨o, ho, hmarked, -⟩ := hp.entries e he
      rw [slotOf_prepared] at hslot
      rw [hslot] at ho
      cases (hlive.symm.trans (liveIds_of_marked ho hmarked))

/-- The sweep in front of the phase renames nothing. -/
theorem renames_prepared (planned : CompactionPlan) (hst : marked.Storage)
    (hc : marked.incrementalCompactionActive = false)
    (hm : marked.Marked .major (marked.traceCollectionRoots [])) :
    marked.Renames (marked.prepared planned) marked.liveIds where
  relocates :=
    let hr := relocates_swept hst hc hm
    ⟨hr.target, hr.origin, hr.ordered, hr.closed⟩
  rootCells := (List.map_id'' (forwardRoot_liveIds hst hc) _).symm
  handleRoots := by
    refine (List.map_id'' (fun root => ?_) _).symm
    rw [forwardRoot_liveIds hst hc]
  weakRefs := by
    rw [forwardBy_liveIds hst hc]
    exact filter_liveId marked marked.weakRefs
  ephemerons := by
    rw [forwardBy_liveIds hst hc]
    exact filter_liveId marked marked.ephemerons
  internTable := filter_internTable hst hc
  stressConfig := rfl

/-- Sweeping the unmarked objects and finishing the compaction of the others collects the
heap. -/
theorem PlannedUpTo.collected (hp : marked.PlannedUpTo marked.objects.length planned)
    (hs : marked.Sound) (hc : marked.incrementalCompactionActive = false)
    (hm : marked.Marked .major (marked.traceCollectionRoots []))
    (hf : Finished (marked.preparedTables planned) (marked.prepared planned) h') :
    Collected (fun slot => ∃ o, marked.objectAt slot = some o ∧ o.countsAsLive .major = true)
      marked h' (marked.preparedTables planned).finalIds := by
  have hst := hs.storage
  have hw := hp.wf hs hc hm
  have hphase : (marked.prepared planned).phase = .compacting (marked.preparedTables planned) := rfl
  have hl := (hw.compacting hphase).2
  have hsweep := renames_prepared planned hst hc hm
  have hkept : marked.KeepsRoots marked.liveIds (marked.traceCollectionRoots []) := by
    rintro value hvalue id rfl
    rw [forwardBy_liveIds hst hc]
    exact isSome_liveId (hm.roots id hvalue)
  have hnone : ∀ value ∈ ([] : List Value), (marked.prepared planned).Valid value := nofun
  have hkept' : (marked.prepared planned).KeepsRoots (marked.preparedTables planned).finalIds
      ((marked.prepared planned).traceCollectionRoots []) := fun value hvalue =>
    survives_finish hw hphase (hw.toSound.traceCollectionRoots hnone value hvalue)
  have hrenames := hsweep.trans hf.toRenames hkept hkept'
  rw [hp.composeIds_eq hst] at hrenames
  -- what the plan says of the slot it moves
  have hentry : ∀ slot id, (marked.preparedTables planned).finalIds slot = some id →
      ∃ o, marked.objectAt slot = some o ∧ o.marked = true ∧
        id.slot = marked.slideOf .major slot ∧
        destinationGeneration slot id.slot (marked.generationAt id.slot) = .ok id.generation := by
    intro slot id hid
    obtain ⟨e, he, hslot, rfl⟩ := IncrementalCompaction.finalIds_eq_some hid
    obtain ⟨o, ho, hmarked, -, -, hslides, hdestination, hgeneration⟩ := hp.entries e he
    rw [slotOf_prepared] at hslot
    subst hslot
    rw [hdestination]
    exact ⟨o, ho, hmarked, hslides, hgeneration⟩
  have hsurvivors : ∀ slot, ((marked.preparedTables planned).finalIds slot).isSome = true ↔
      ∃ o, marked.objectAt slot = some o ∧ o.countsAsLive .major = true := by
    intro slot
    constructor
    · intro hsome
      obtain ⟨id, hid⟩ := Option.isSome_iff_exists.mp hsome
      obtain ⟨o, ho, hmarked, -⟩ := hentry slot id hid
      exact ⟨o, ho, hmarked⟩
    · rintro ⟨o, ho, hmarked⟩
      obtain ⟨e, he, rfl⟩ := hp.covers slot o (lt_length_of_objectAt ho) ho hmarked
      have hid := hl.finalIds_slotOf he
      rw [slotOf_prepared] at hid
      rw [hid]
      rfl
  have hslides : ∀ slot id, (marked.preparedTables planned).finalIds slot = some id → id.slot =
      slide (marked.liveWidth fun slot =>
        ∃ o, marked.objectAt slot = some o ∧ o.countsAsLive .major = true) slot := by
    intro slot id hid
    obtain ⟨-, -, -, hslot, -⟩ := hentry slot id hid
    rw [hslot, slideOf, survivorWidth_eq_liveWidth]
  exact {
    toRenames := hrenames
    survivors := hsurvivors
    moved := by
      intro slot o id ho hid
      obtain ⟨o₁, ho₁, hmarked, -⟩ := hentry slot id hid
      rw [ho] at ho₁
      cases ho₁
      have hswept : (marked.prepared planned).objectAt slot =
          some { o.forward marked.liveId with marked := false } :=
        objectAt_swept_eq_some.mpr ⟨o, ho, hmarked, rfl⟩
      rw [hf.moved slot _ id hswept hid]
      obtain ⟨o', ho', hp'⟩ := hrenames.relocates.target slot o id ho hid
      have hmoved := hf.moved slot _ id hswept hid
      rw [objectAt_of_lookup ho', Option.some.injEq] at hmoved
      refine congrArg some (Object.ext_payload rfl rfl ?_ rfl)
      rw [← hmoved]
      exact hp'
    slides := hslides
    generations := fun slot id hid => (hentry slot id hid).choose_spec.2.2.2
    kept := by
      intro slot hstays
      refine hf.kept slot fun e he => ?_
      have hid := hl.finalIds_slotOf he
      rw [← (hl.planned e he).destination]
      exact hstays _ _ hid
    ordered := fun _ _ _ _ hid₁ hid₂ hlt => by
      refine ordered_of_slides (fun slot id hid => ?_) hslides hid₁ hid₂ hlt
      obtain ⟨o, ho, hmarked, -⟩ := hentry slot id hid
      exact ⟨⟨o, ho, hmarked⟩, o, ho⟩
    packed := fun _ _ ho' _ hlt => hrenames.relocates.packed hsurvivors hslides ho' hlt
    wf := hf.wf
    allOld := hf.allOld
    length := hf.length.trans (length_swept marked)
    rememberedSet := hf.rememberedSet
    phase := hf.phase }

/-- Opening the compaction phase and finishing it collects the heap. -/
theorem Prepares.collected (hp : h.Prepares h₁ marked) (hs : h.Sound)
    (hc : marked.incrementalCompactionActive = false) :
    wp (finishIncrementalCompactionImpl [])
      (fun cells' h' => ∃ φ, Collected (h.Live .major (h.traceCollectionRoots [])) h h' φ ∧
        cells' = [].map (h.forwardRoot φ)) (fun _ _ => False) h₁ := by
  obtain ⟨planned, hplanned, rfl⟩ := hp.prepared
  have hnone : ∀ value ∈ ([] : List Value), h.Valid value := nofun
  have hmarked := hp.same.marked hs (hs.traceCollectionRoots hnone) hp.live
  rw [← hp.same.traceCollectionRoots] at hmarked
  refine wp_mono (wp_finishIncrementalCompactionImpl hp.wf rfl nofun) (fun cells' h' hpost => ?_)
    fun _ _ he => he
  obtain ⟨hfinished, rfl⟩ := hpost
  have hcollected := hplanned.collected (hp.same.sound hs) hc hmarked hfinished
  have hset : (fun slot => ∃ o, marked.objectAt slot = some o ∧ o.countsAsLive .major = true) =
      h.Live .major (h.traceCollectionRoots []) := by
    funext slot
    exact propext (hp.live slot)
  rw [hset] at hcollected
  exact ⟨_, hp.same.collected hcollected, rfl⟩

end HandOver

/-! ## The ends of a cycle -/

/-- Two collections return the same in heaps that agree, or both run out of generations. -/
inductive SameOutcome {α : Type} :
    EStateM.Result HeapError Heap α → EStateM.Result HeapError Heap α → Prop
  | ok {a : α} {h h' : Heap} (hagree : h.Agrees h') : SameOutcome (.ok a h) (.ok a h')
  | exhausted {h h' : Heap} :
    SameOutcome (.error generationExhausted h) (.error generationExhausted h')

/-- The heap as it would be without its marking cycle. -/
def withoutCycle (h : Heap) : Heap := h.clearMarks.withPhase .idle

section Ends

variable {h : Heap} {worklist : List ObjectId} {cells : List Value}

theorem same_withoutCycle (hphase : h.phase = .marking worklist) :
    h.SameButMarks h.withoutCycle := by
  have hc := compactionActive_of_marking hphase
  exact (same_withPhase .idle hc rfl).trans (marksOnly_clearMarks (h.withPhase .idle)).same

theorem withoutCycle_wf (hw : h.Wf) (hphase : h.phase = .marking worklist) :
    h.withoutCycle.Wf :=
  ⟨(same_withoutCycle hphase).sound hw.toSound, unmarked_clearMarks h⟩

/-- Programs that collect the same heap and keep the same objects have the same outcome. -/
theorem sameOutcome_of_wp {α : Type} {m m' : HeapM α} {h₁ h₂ : Heap} {live : ℕ → Prop}
    {result : (ℕ → Option ObjectId) → α}
    (hm : wp m (fun a h' => ∃ φ, Collected live h h' φ ∧ a = result φ)
      (fun e _ => e = generationExhausted ∧ h.RunsOut live) h₁)
    (hm' : wp m' (fun a h' => ∃ φ, Collected live h h' φ ∧ a = result φ)
      (fun e _ => e = generationExhausted ∧ h.RunsOut live) h₂)
    (hlive : ∀ slot, live slot → ∃ o, h.objectAt slot = some o) :
    SameOutcome (m h₁) (m' h₂) := by
  unfold wp at hm hm'
  cases hrun : m h₁ with
  | ok a h' =>
    rw [hrun] at hm
    obtain ⟨φ, hc, rfl⟩ := hm
    cases hrun' : m' h₂ with
    | ok a' h'' =>
      rw [hrun'] at hm'
      obtain ⟨ψ, hc', rfl⟩ := hm'
      rw [hc.ids_eq hc']
      exact .ok (hc.agrees hc' hlive)
    | error e h'' =>
      rw [hrun'] at hm'
      exact absurd hm'.2 hc.not_runsOut
  | error e h' =>
    rw [hrun] at hm
    obtain ⟨rfl, hruns⟩ := hm
    cases hrun' : m' h₂ with
    | ok a' h'' =>
      rw [hrun'] at hm'
      obtain ⟨ψ, hc', -⟩ := hm'
      exact absurd hruns hc'.not_runsOut
    | error e' h'' =>
      rw [hrun'] at hm'
      obtain ⟨rfl, -⟩ := hm'
      exact .exhausted

/-- An atomic collection outside the incremental phases. -/
theorem wp_collectImpl_idle (kind : CollectionKind) (hw : h.Wf) (hidle : h.phase = .idle)
    (hcells : ∀ value ∈ cells, h.Valid value) :
    wp (collectImpl kind cells)
      (fun cells' h' => ∃ φ, Collected (h.Live kind (h.traceCollectionRoots cells)) h h' φ ∧
        cells' = cells.map (h.forwardRoot φ))
      (fun e h' => h.MarksOnly h' ∧ e = generationExhausted ∧
        h.RunsOut (h.Live kind (h.traceCollectionRoots cells))) h := by
  have hmarking : h.incrementalMarkingActive = false := by rw [incrementalMarkingActive, hidle]
  have hcompacting : h.incrementalCompactionActive = false := compactionActive_of_idle hidle
  unfold collectImpl finishIncrementalPhase finishActiveCompaction
  rw [wp_bind, wp_bind, wp_bind, wp_get]
  refine wp_ite (fun hactive => ?_) fun _ => ?_
  · rw [hcompacting] at hactive
    cases hactive
  rw [wp_pure, wp_bind, wp_get]
  refine wp_ite (fun hactive => ?_) fun _ => ?_
  · rw [hmarking] at hactive
    cases hactive
  rw [wp_pure]
  exact wp_collectAtomically hw hidle hcells

/-- The atomic collection of the heap without its cycle, as a collection of the heap itself. -/
theorem wp_collectImpl_withoutCycle (hw : h.Wf) (hphase : h.phase = .marking worklist)
    (hcells : ∀ value ∈ cells, h.Valid value) :
    wp (collectImpl .major cells)
      (fun cells' h' => ∃ φ, Collected (h.Live .major (h.traceCollectionRoots cells)) h h' φ ∧
        cells' = cells.map (h.forwardRoot φ))
      (fun e _ => e = generationExhausted ∧
        h.RunsOut (h.Live .major (h.traceCollectionRoots cells))) h.withoutCycle := by
  have hm := same_withoutCycle hphase
  have hcells' : ∀ value ∈ cells, h.withoutCycle.Valid value := fun value hvalue =>
    hm.updates.valid (hcells value hvalue)
  have hcollect := wp_collectImpl_idle .major (withoutCycle_wf hw hphase) rfl hcells'
  rw [hm.traceCollectionRoots, hm.live] at hcollect
  refine wp_mono hcollect (fun _ h' hpost => ?_) fun e h' he => ⟨he.2.1, hm.runsOut he.2.2⟩
  obtain ⟨φ, hc, rfl⟩ := hpost
  exact ⟨φ, hm.collected hc, by rw [hm.forwardRoot]⟩

/-- The hand-over to an incremental compaction that is then finished. -/
theorem wp_handOver (hw : h.Wf) (hphase : h.phase = .marking worklist) :
    wp (do finishIncrementalMarkingToIncrementalCompaction; finishIncrementalCompactionImpl [])
      (fun cells' h' => ∃ φ, Collected (h.Live .major (h.traceCollectionRoots [])) h h' φ ∧
        cells' = [].map (h.forwardRoot φ))
      (fun e _ => e = generationExhausted ∧
        h.RunsOut (h.Live .major (h.traceCollectionRoots []))) h := by
  rw [wp_bind]
  refine wp_mono (wp_finishIncrementalMarkingToIncrementalCompaction_marking hw hphase)
    (fun _ h₁ hpost => ?_) fun _ _ he => he.2.2
  obtain ⟨marked, hp, hidle⟩ := hpost
  exact wp_mono (hp.collected hw.toSound (compactionActive_of_idle hidle)) (fun _ _ hc => hc)
    fun _ _ he => he.elim

/-- A collection that starts in a marking phase first finishes the marking. -/
theorem wp_finishIncrementalPhase_marking (hphase : h.phase = .marking worklist)
    {Q : List Value → Heap → Prop} {E : HeapError → Heap → Prop}
    (hm : wp (finishIncrementalMarkingImpl cells) Q E h) :
    wp (finishIncrementalPhase cells) Q E h := by
  have hcompacting := compactionActive_of_marking hphase
  have hmarking : h.incrementalMarkingActive = true := by rw [incrementalMarkingActive, hphase]
  unfold finishIncrementalPhase finishActiveCompaction
  rw [wp_bind, wp_bind, wp_get]
  refine wp_ite (fun hactive => ?_) fun _ => ?_
  · rw [hcompacting] at hactive
    cases hactive
  rw [wp_pure, wp_bind, wp_get]
  refine wp_ite (fun _ => hm) fun hinactive => ?_
  exact absurd hmarking hinactive

/-- The liveness check against an atomic marking never throws. -/
theorem liveness_ne_error (hw : h.Wf) (hphase : h.phase = .marking worklist)
    (hcells : ∀ value ∈ cells, h.Valid value) (e : HeapError) (h' : Heap) :
    finishIncrementalMarkingLiveness cells h ≠ .error e h' := fun herror =>
  wp_error herror (wp_finishIncrementalMarkingLiveness hw hphase hcells)

end Ends

/-- At any moment of a marking cycle over a heap that keeps the representation invariant, the
three ends of the cycle have the same outcome as an atomic collection of the same heap without
the cycle: all give the same heap, which holds the live objects and no marks, or all stop because
a live object would have to move to a slot that has used up its generations. The check of the
marks against an atomic marking never throws. -/
theorem marking_finish_eq_atomic {h₀ h : Heap} (hw : h₀.Wf)
    (hstart : startIncrementalMarking h₀ = .ok () h) (actions : List Action)
    (hsteps : Meets (fun h action => action.after h) MarkingStep h actions) (cells : List Value)
    (hcells : ∀ value ∈ cells, (h.run actions).Valid value) :
    let h' := h.run actions
    let live := h'.Live .major (h'.traceCollectionRoots cells)
    SameOutcome (finishIncrementalMarkingImpl cells h') (collectImpl .major cells h'.withoutCycle) ∧
      SameOutcome (finishIncrementalPhase cells h') (collectImpl .major cells h'.withoutCycle) ∧
      SameOutcome
        ((do finishIncrementalMarkingToIncrementalCompaction; finishIncrementalCompactionImpl []) h')
        (collectImpl .major [] h'.withoutCycle) ∧
      (∀ cells' h₁, finishIncrementalMarkingImpl cells h' = .ok cells' h₁ →
        h₁.Unmarked ∧ ∃ φ, Collected live h' h₁ φ) ∧
      ((∃ e h₁, finishIncrementalMarkingImpl cells h' = .error e h₁) ↔ h'.RunsOut live) ∧
      ∀ e h₁, finishIncrementalMarkingLiveness cells h' ≠ .error e h₁ := by
  intro h' live
  have hw₁ : h.Wf := (wp_ok hstart (wp_startIncrementalMarking hw)).1
  obtain ⟨hw', hactive⟩ := marking_run hw₁ (startIncrementalMarking_active hstart) hsteps
  obtain ⟨worklist, hphase⟩ := phase_of_active hactive
  have hlive : ∀ slot, live slot → ∃ o, h'.objectAt slot = some o := fun slot =>
    exists_objectAt_of_live
  have hnone : ∀ value ∈ ([] : List Value), h'.Valid value := nofun
  have hfinish := wp_mono (wp_finishIncrementalMarkingImpl hw' hphase hcells)
    (fun _ _ hpost => hpost) fun _ _ he => he.2
  have hatomic := wp_collectImpl_withoutCycle hw' hphase hcells
  have hatomic' := wp_collectImpl_withoutCycle hw' hphase hnone
  refine ⟨sameOutcome_of_wp hfinish hatomic hlive,
    sameOutcome_of_wp (wp_finishIncrementalPhase_marking hphase hfinish) hatomic hlive,
    sameOutcome_of_wp (wp_handOver hw' hphase) hatomic' fun slot => exists_objectAt_of_live, ?_, ?_,
    liveness_ne_error hw' hphase hcells⟩
  · intro cells' h₁ hok
    obtain ⟨φ, hc, -⟩ := wp_ok hok hfinish
    exact ⟨hc.wf.unmarked hc.phase, φ, hc⟩
  · constructor
    · rintro ⟨e, h₁, herror⟩
      exact (wp_error herror hfinish).2
    · intro hruns
      cases hrun : finishIncrementalMarkingImpl cells h' with
      | ok cells' h₁ =>
        obtain ⟨φ, hc, -⟩ := wp_ok hrun hfinish
        exact absurd hruns hc.not_runsOut
      | error e h₁ => exact ⟨e, h₁, rfl⟩

/-- A cycle in which a store keeps one pair alive through another. -/
theorem marking_finish_eq_atomic_store :
    let h := ((Heap.empty .quiet).withPhase (.marking [])).run
      [.call (.allocatePair .nil .nil), .call (.allocatePair .nil .nil),
        .call (.incrementalMarkStep 1), .call (.allocatePair .nil .nil),
        .call (.setField ⟨2, 1⟩ .left (.object ⟨1, 1⟩)), .setRoots [.object ⟨2, 1⟩]]
    SameOutcome (finishIncrementalMarkingImpl [.object ⟨1, 1⟩] h)
      (collectImpl .major [.object ⟨1, 1⟩] h.withoutCycle) := by
  have hstart : startIncrementalMarking (Heap.empty .quiet) =
      .ok () ((Heap.empty .quiet).withPhase (.marking [])) := rfl
  have hends := marking_finish_eq_atomic (empty_wf .quiet) hstart
    [.call (.allocatePair .nil .nil), .call (.allocatePair .nil .nil),
      .call (.incrementalMarkStep 1), .call (.allocatePair .nil .nil),
      .call (.setField ⟨2, 1⟩ .left (.object ⟨1, 1⟩)), .setRoots [.object ⟨2, 1⟩]]
    (by decide +kernel) [.object ⟨1, 1⟩] (by decide +kernel)
  exact hends.1

/-! ## Out of generations -/

/-- A heap whose only slot has one generation left. -/
def spent : Heap :=
  { Heap.empty .quiet with objects := [none], generations := [kMaxGeneration - 1] }

theorem spent_wf : spent.Wf :=
  .of_no_objects (fun slot => getD_replicate_default 1 slot none) (by decide) rfl rfl rfl rfl rfl rfl
    rfl rfl

/-- A garbage pair takes the last generation of its slot. The pair behind it is live and would
have to move there, so the cycle cannot be finished and the live pair keeps its mark. -/
theorem finish_out_of_generations :
    let h := spent.withPhase (.marking [])
    let actions := [.call (.allocatePair .nil .nil), .call (.allocatePair .nil .nil),
      .setRoots [.object ⟨1, 1⟩]]
    spent.Wf ∧ startIncrementalMarking spent = .ok () h ∧
      Meets (fun h action => action.after h) MarkingStep h actions ∧
      ∃ h', finishIncrementalMarkingImpl [] (h.run actions) = .error generationExhausted h' ∧
        h'.MarkedAt 1 := by
  intro h actions
  refine ⟨spent_wf, rfl, by decide +kernel, ?_⟩
  have hrun : (match finishIncrementalMarkingImpl [] (h.run actions) with
      | .ok _ _ => false
      | .error e h' => decide (e = generationExhausted) && (h'.objectAt 1).any Object.marked) =
        true := by
    decide +kernel
  cases hfinish : finishIncrementalMarkingImpl [] (h.run actions) with
  | ok cells h' =>
    rw [hfinish] at hrun
    exact nomatch hrun
  | error e h' =>
    rw [hfinish, Bool.and_eq_true, decide_eq_true_eq, Option.any_eq_true] at hrun
    obtain ⟨rfl, o, ho, hmarked⟩ := hrun
    exact ⟨h', rfl, o, ho, hmarked⟩

end Heap

end LanguageRuntime.Gc
