import LanguageRuntime.Gc.RunTheorems

/-!
# Incremental marking

From its start to its end an incremental marking cycle keeps the strong tri-colour invariant,
whatever the mutator does in between, as long as the slot vector stays within the slot numbers.
-/

namespace LanguageRuntime.Gc

open LanguageRuntime LanguageRuntime.Library

namespace Heap

/-- An action inside a marking cycle: its identifiers resolve, the slot vector stays within the
slot numbers and the cycle stays open. -/
structure MarkingStep (h : Heap) (action : Action) : Prop where
  operands : ∀ v ∈ action.operands, h.Valid v
  slots : (action.after h).objects.length ≤ slotNumbers
  active : (action.after h).incrementalMarkingActive = true

instance (h : Heap) (action : Action) : Decidable (h.MarkingStep action) :=
  decidable_of_iff ((∀ v ∈ action.operands, h.Valid v) ∧
      (action.after h).objects.length ≤ slotNumbers ∧
      (action.after h).incrementalMarkingActive = true)
    ⟨fun ⟨hoperands, hslots, hactive⟩ => ⟨hoperands, hslots, hactive⟩,
      fun hs => ⟨hs.operands, hs.slots, hs.active⟩⟩

/-- The object at a slot is marked. -/
def MarkedAt (h : Heap) (slot : ℕ) : Prop := ∃ o, h.objectAt slot = some o ∧ o.marked = true

section Cycle

variable {h h₀ : Heap} {action : Action} {actions : List Action} {worklist : List ObjectId}

theorem phase_of_active (hm : h.incrementalMarkingActive = true) :
    ∃ worklist, h.phase = .marking worklist := by
  unfold incrementalMarkingActive at hm
  cases hphase : h.phase with
  | marking worklist => exact ⟨worklist, rfl⟩
  | _ =>
    rw [hphase] at hm
    exact nomatch hm

/-- Outside incremental compaction no store can go through a stale identifier. -/
theorem not_storesStale (hc : h.incrementalCompactionActive = false) : ¬action.StoresStale h := by
  intro hstale
  cases action with
  | setRoots cells => exact hstale
  | call op =>
    cases op with
    | setField id field value => exact not_remembersStale hc hstale
    | refArraySet id index value => exact not_remembersStale hc hstale
    | recordSet id index value => exact not_remembersStale hc hstale
    | ephemeronSetValue id value => exact not_remembersStale hc hstale
    | mapSet id key value => exact not_remembersStale hc hstale.2
    | _ => exact hstale

/-- An operation that leaves the cycle open keeps the invariant: a collection that runs out of
generations inside a cycle leaves its marks and an empty worklist. -/
theorem Wf.after_marking (hw : h.Wf) (hm : h.incrementalMarkingActive = true)
    (hs : h.MarkingStep action) : (action.after h).Wf := by
  obtain ⟨worklist, hphase⟩ := phase_of_active hm
  cases action with
  | setRoots cells => exact hw.setRoots hs.operands hw.handles
  | call op =>
    have hfresh : ¬(Action.call op).StoresStale h :=
      not_storesStale (compactionActive_of_marking hphase)
    have hkeeps : wp (Action.call op).step (fun _ h' => h'.Wf ∨ h'.Oversized)
        (fun e h' => Throws e h' ∨ h'.Oversized) h := keeps_run hw hs.operands hfresh
    have hstep : wp (Action.call op).step
        (fun _ h' => h'.objects.length ≤ slotNumbers → h'.incrementalMarkingActive = true → h'.Wf)
        (fun _ h' => h'.objects.length ≤ slotNumbers → h'.incrementalMarkingActive = true → h'.Wf)
        h := by
      refine wp_mono hkeeps (fun _ h' hq hin _ => ?_) fun e h' he hin hactive => ?_
      · exact hq.elim (fun hw' => hw') fun hover => absurd hin (Nat.not_le.mpr hover.slots)
      · rcases he with (hw' | ⟨-, -, hidle⟩) | hover
        · exact hw'
        · rw [incrementalMarkingActive, hidle] at hactive
          cases hactive
        · exact absurd hin (Nat.not_le.mpr hover.slots)
    have hafter := after_of_wp hstep
    exact hafter hs.slots hs.active

theorem marking_run (hw : h.Wf) (hm : h.incrementalMarkingActive = true)
    (hsteps : Meets (fun h action => action.after h) MarkingStep h actions) :
    (h.run actions).Wf ∧ (h.run actions).incrementalMarkingActive = true :=
  hsteps.invariant (I := fun h => h.Wf ∧ h.incrementalMarkingActive = true)
    (fun _ _ hinv hstep => ⟨hinv.1.after_marking hinv.2 hstep, hstep.active⟩) ⟨hw, hm⟩

theorem startIncrementalMarking_active (hstart : startIncrementalMarking h₀ = .ok () h) :
    h.incrementalMarkingActive = true := by
  have hpost : wp startIncrementalMarking (fun _ h' => h'.incrementalMarkingActive = true)
      (fun _ _ => True) h₀ := by
    unfold startIncrementalMarking
    rw [wp_bind, wp_get]
    refine wp_ite (fun _ => trivial) fun _ => wp_ite (fun _ => trivial) fun _ => ?_
    refine wp_query_bind (fun _ _ => ?_) fun _ _ => trivial
    refine wp_query_bind (fun _ _ => ?_) fun _ _ => trivial
    rw [wp_modify]
    rfl
  have hactive := wp_ok hstart hpost
  exact hactive

/-- A reference of a marked object leads to a marked object or to a grey one, which the worklist
names as it is named now. -/
theorem TriColour.covers (hst : h.Storage) (ht : h.TriColour worklist)
    (hc : h.incrementalCompactionActive = false) {slot : ℕ} {o : Object} {id : ObjectId}
    (ho : h.objectAt slot = some o) (hmarked : o.marked = true)
    (hid : .object id ∈ o.payload.referenceFields) (hr : h.Resolves id) :
    ∃ slot' target, h.resolve id = .ok (slot', target) ∧
      (target.marked = true ∨ h.currentId slot' ∈ worklist) := by
  obtain ⟨slot', target, hr⟩ := hr
  refine ⟨slot', target, hr, ?_⟩
  rcases ht.traces slot o ho hmarked id hid slot' target hr with hlive | hgrey
  · exact .inl hlive
  · obtain ⟨hlookup, rfl⟩ := lookup_of_resolve hc hr
    rw [hst.currentId_of_lookup hlookup]
    exact .inr hgrey

/-- Once nothing is grey, what a marked object reaches is marked. -/
theorem TriColour.reaches (ht : h.TriColour []) {slot slot' : ℕ}
    (hmarked : h.MarkedAt slot) (hreach : Relation.ReflTransGen h.StrongReference slot slot') :
    h.MarkedAt slot' := by
  induction hreach with
  | refl => exact hmarked
  | tail _ hedge ih =>
    obtain ⟨o, ho, hlive⟩ := ih
    obtain ⟨o₁, id, target, ho₁, hid, hr⟩ := hedge
    rw [ho] at ho₁
    cases ho₁
    rcases ht.traces _ o ho hlive id hid _ target hr with htarget | hgrey
    · exact ⟨target, objectAt_of_resolve hr, htarget⟩
    · exact nomatch hgrey

end Cycle

/-- In every run of a marking cycle over a heap that keeps the representation invariant, the
worklist holds current identifiers, every reference of a marked object leads to a marked object or
to one that the worklist names, the check of the invariant passes, and once the worklist is
empty everything strongly reachable from a marked object is marked. -/
theorem marking_keeps_triColour {h₀ h : Heap} (hw : h₀.Wf)
    (hstart : startIncrementalMarking h₀ = .ok () h) (actions : List Action)
    (hsteps : Meets (fun h action => action.after h) MarkingStep h actions) :
    let h' := h.run actions
    ∃ worklist, h'.phase = .marking worklist ∧
      (∀ id ∈ worklist, h'.Current id) ∧
      (∀ slot o, h'.objectAt slot = some o → o.marked = true →
        ∀ id, .object id ∈ o.payload.referenceFields →
          ∃ slot' target, h'.resolve id = .ok (slot', target) ∧
            (target.marked = true ∨ h'.currentId slot' ∈ worklist)) ∧
      h'.validateIncrementalMarking = .ok () ∧
      (worklist = [] → ∀ slot slot', h'.MarkedAt slot →
        Relation.ReflTransGen h'.StrongReference slot slot' → h'.MarkedAt slot') := by
  intro h'
  have hw₁ : h.Wf := (wp_ok hstart (wp_startIncrementalMarking hw)).1
  obtain ⟨hw', hactive⟩ := marking_run hw₁ (startIncrementalMarking_active hstart) hsteps
  obtain ⟨worklist, hphase⟩ := phase_of_active hactive
  have ht := hw'.triColour hphase
  refine ⟨worklist, hphase, ht.grey, ?_, hw'.validateIncrementalMarking_eq_ok, ?_⟩
  · intro slot o ho hmarked id hid
    have hvalid := hw'.referenceFields ho _ hid
    exact ht.covers hw'.storage (compactionActive_of_marking hphase) ho hmarked hid
      (valid_object.mp hvalid)
  · rintro rfl slot slot' hmarked hreach
    exact ht.reaches hmarked hreach

/-- A cycle over two pairs: the first is marked, and a store into it greys the second. -/
theorem marking_keeps_triColour_store :
    let h' := ((Heap.empty .quiet).withPhase (.marking [])).run
      [.call (.allocatePair .nil .nil), .call (.incrementalMarkStep 1),
        .call (.allocatePair .nil .nil), .call (.setField ⟨0, 1⟩ .left (.object ⟨1, 1⟩))]
    ∃ worklist, h'.phase = .marking worklist ∧ ∀ id ∈ worklist, h'.Current id := by
  have hstart : startIncrementalMarking (Heap.empty .quiet) =
      .ok () ((Heap.empty .quiet).withPhase (.marking [])) := rfl
  have hrun := marking_keeps_triColour (empty_wf .quiet) hstart
    [.call (.allocatePair .nil .nil), .call (.incrementalMarkStep 1),
      .call (.allocatePair .nil .nil), .call (.setField ⟨0, 1⟩ .left (.object ⟨1, 1⟩))]
    (by decide +kernel)
  obtain ⟨worklist, hphase, hgrey, -⟩ := hrun
  exact ⟨worklist, hphase, hgrey⟩

/-! ## Past the limit -/

section Outgrow

variable {h : Heap} {n entries : ℕ}

theorem Spans.startIncrementalMarking_eq (hs : h.Spans n entries) (hw : h.Wf)
    (hidle : h.phase = .idle) :
    startIncrementalMarking h = .ok () (h.withPhase (.marking [])) := by
  have hpost : wp startIncrementalMarking (fun _ h' => h' = h.withPhase (.marking []))
      (fun _ _ => False) h := by
    unfold startIncrementalMarking
    rw [wp_bind, wp_get]
    refine wp_ite (fun hm => ?_) fun _ => wp_ite (fun hc => ?_) fun _ => ?_
    · rw [incrementalMarkingActive, hidle] at hm
      cases hm
    · rw [hs.settled] at hc
      cases hc
    refine wp_query_ok hw.toSound.validateBeforeCollection_eq_ok ?_
    have hnone : h.enqueueCollectionRoots .major [] = .ok [] := by
      rw [enqueueCollectionRoots, hs.roots]
      rfl
    refine wp_query_ok hnone ?_
    rfl
  unfold wp at hpost
  cases hrun : startIncrementalMarking h with
  | ok _ h' =>
    rw [hrun] at hpost
    rw [hpost]
  | error e h' =>
    rw [hrun] at hpost
    exact hpost.elim

theorem Spans.withPhase (hs : h.Spans n entries) (worklist : List ObjectId) :
    (h.withPhase (.marking worklist)).Spans n entries where
  array := hs.array
  map := hs.map
  size := hs.size
  lengths := hs.lengths
  generations := hs.generations
  settled := rfl
  quiet := hs.quiet
  roots := hs.roots
  unlisted := hs.unlisted

/-- The new pair is grey under an identifier that names no object. -/
theorem Spans.after_allocatePair (hs : h.Spans headerLimit 1) {worklist : List ObjectId}
    (hphase : h.phase = .marking worklist) :
    let h' := (Action.call (.allocatePair .nil .nil)).after h
    h'.phase = .marking (⟨2, 1⟩ :: worklist) ∧ ¬h'.Resolves ⟨2, 1⟩ := by
  refine after_of_wp (I := fun h' => h'.phase = .marking (⟨2, 1⟩ :: worklist) ∧
    ¬h'.Resolves ⟨2, 1⟩) ?_
  show wp (some <$> allocatePair .nil .nil) _ _ h
  unfold allocatePair
  rw [wp_map, wp_bind]
  refine wp_collectBeforeAllocation_quiet hs.quiet ?_
  refine hs.wp_allocate rfl rfl fun h' heq hnone => ?_
  have hphase' : h'.phase = .marking (⟨2, 1⟩ :: worklist) := by
    have hresized : (h.resize (slotNumbers + 3)).phase = .marking worklist := hphase
    rw [heq]
    unfold installObject
    dsimp only
    rw [hresized]
    rfl
  refine ⟨hphase', fun hr => ?_⟩
  obtain ⟨o, ho⟩ := hr.current (compactionActive_of_marking hphase')
  cases (hnone.symm.trans ho)

theorem Spans.greys_unresolved (hs : h.Spans headerLimit 0) :
    let h' := (h.withPhase (.marking [])).run
      [.call (.mapSet ⟨headerLimit, 1⟩ (.int64 0) (.int64 0)), .call (.allocatePair .nil .nil)]
    ∃ worklist, h'.phase = .marking worklist ∧ ∃ id ∈ worklist, ¬h'.Resolves id := by
  obtain ⟨hgrown, hphase⟩ := after_mapSet_spans (hs.withPhase [])
  have hpair := hgrown.after_allocatePair hphase
  exact ⟨[⟨2, 1⟩], hpair.1, ⟨2, 1⟩, List.mem_cons_self, hpair.2⟩

/-- A cycle that starts over a full slot vector: once a map has grown in place, the next
allocation greys an identifier that names no object. -/
theorem marking_outgrown :
    let h₀ := (Heap.empty .quiet).run [.call (.allocateScalarArray headerLimit 0),
      .call (.allocateMap 0 false false)]
    let h := h₀.withPhase (.marking [])
    let h' := h.run [.call (.mapSet ⟨headerLimit, 1⟩ (.int64 0) (.int64 0)),
      .call (.allocatePair .nil .nil)]
    h₀.Wf ∧ startIncrementalMarking h₀ = .ok () h ∧ h.Current ⟨headerLimit, 1⟩ ∧
      ∃ worklist, h'.phase = .marking worklist ∧ ∃ id ∈ worklist, ¬h'.Resolves id := by
  have hpos : 0 < headerLimit := by decide
  obtain ⟨hspans, hidle⟩ := spans_start hpos le_rfl
  have hw := start_wf hpos le_rfl
  exact ⟨hw, hspans.startIncrementalMarking_eq hw hidle, (hspans.withPhase []).current_map,
    hspans.greys_unresolved⟩

end Outgrow

end Heap

end LanguageRuntime.Gc
