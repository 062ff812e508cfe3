import LanguageRuntime.Gc.FinishTheorems

/-!
# A whole incremental compaction

Finishing the phase is a relocation of every object to the destination the plan gives it.
-/

namespace LanguageRuntime.Gc

open LanguageRuntime LanguageRuntime.Library

namespace IncrementalCompaction

/-- The identifier the plan gives the object that stands at `slot` now. -/
def finalIds (c : IncrementalCompaction) (slot : ℕ) : Option ObjectId :=
  (c.plan.find? fun e => c.slotOf e = slot).map (·.destinationId)

section Final

variable {c : IncrementalCompaction} {h : Heap} {e : IncrementalCompactionEntry}
  {id id' : ObjectId} {slot : ℕ}

theorem Layout.finalIds_slotOf (hl : c.Layout h) (he : e ∈ c.plan) :
    c.finalIds (c.slotOf e) = some e.destinationId := by
  rw [finalIds]
  cases hfind : c.plan.find? (fun e' => c.slotOf e' = c.slotOf e) with
  | none => simpa using List.find?_eq_none.mp hfind e he
  | some e' =>
    have hslot : c.slotOf e' = c.slotOf e := by simpa using List.find?_some hfind
    rw [hl.eq_of_slotOf (List.mem_of_find?_eq_some hfind) he hslot]
    rfl

theorem finalIds_eq_some (hid : c.finalIds slot = some id) :
    ∃ e ∈ c.plan, c.slotOf e = slot ∧ e.destinationId = id := by
  obtain ⟨e, hfind, rfl⟩ := Option.map_eq_some_iff.mp hid
  exact ⟨e, List.mem_of_find?_eq_some hfind, by simpa using List.find?_some hfind, rfl⟩

theorem Layout.forwardBy_finalIds (hl : c.Layout h) (hphase : h.phase = .compacting c)
    (hn : c.Names id e) : h.forwardBy c.finalIds id = some e.destinationId := by
  obtain ⟨o, -, ho, -⟩ := hl.objects e hn.planned
  rw [Heap.forwardBy_of_resolve (hl.resolve_of_names hphase hn ho),
    hl.finalIds_slotOf hn.planned]

end Final

end IncrementalCompaction

namespace Heap

/-- `h'` is what finishing the phase makes of `h`. -/
structure Finished (c : IncrementalCompaction) (h h' : Heap) : Prop
    extends Renames h h' c.finalIds where
  moved : ∀ slot o id', h.objectAt slot = some o → c.finalIds slot = some id' →
    h'.objectAt id'.slot = some (o.promote.forward (h.forwardBy c.finalIds))
  reached : ∀ e ∈ c.plan, h'.generationAt e.destinationSlot = e.destinationId.generation
  kept : ∀ slot, (∀ e ∈ c.plan, e.destinationSlot ≠ slot) →
    h'.generationAt slot = c.shadowGenerations.getD slot 0
  wf : h'.Wf
  allOld : h'.AllOld
  length : h'.objects.length = h.objects.length
  rememberedSet : h'.rememberedSet = []
  phase : h'.phase = .idle

section Finish

variable {h h₁ : Heap} {c c₁ : IncrementalCompaction} {cells cells₁ : List Value}

/-- The final values are those the plan gives. -/
theorem Steps.canonicalValue_eq (hw : h.Wf) (hw₁ : h₁.Wf) (hphase : h.phase = .compacting c)
    (hs : h.Steps h₁ c c₁ cells cells₁) (hq : c₁.cursor = c₁.plan.length) {value : Value}
    (hv : h.Valid value) : h₁.canonicalValue value = h.forwardRoot c.finalIds value := by
  have hl := (hw.compacting hphase).2
  have hl₁ := (hw₁.compacting hs.phase).2
  cases value with
  | object id =>
    obtain ⟨e, hn⟩ := (hl.resolves_iff hphase).mp (valid_object.mp hv)
    have hn₁ := hn.later hs.tables hs.cursor
    have hdone := IncrementalCompaction.done_of_quiescent hq hn₁.planned
    show Value.object (h₁.canonical id) = Value.object ((h.forwardBy c.finalIds id).getD id)
    rw [hl₁.canonical_of_names hw₁.storage hs.phase hn₁,
      IncrementalCompaction.idOf_of_done hdone, hl.forwardBy_finalIds hphase hn]
    rfl
  | _ => rfl

/-- The final rewrite at the end of the steps from `h` finishes `h`. -/
theorem Steps.finished (hw : h.Wf) (hw₁ : h₁.Wf) (hphase : h.phase = .compacting c)
    (hs : h.Steps h₁ c c₁ cells cells₁) (hq : c₁.cursor = c₁.plan.length)
    (hcells₁ : ∀ value ∈ cells₁, h₁.Valid value) : Finished c h (h₁.finalized .idle) := by
  obtain ⟨hunmarked, hl⟩ := hw.compacting hphase
  obtain ⟨-, hl₁⟩ := hw₁.compacting hs.phase
  obtain ⟨-, hwf, hold⟩ := finalizeIncrementalCompaction_eq_ok hw₁ hs.phase hq hcells₁
  have hplan : c₁.plan = c.plan := by rw [hs.tables]
  have hdone : ∀ e ∈ c.plan, c₁.Done e := fun e he =>
    IncrementalCompaction.done_of_quiescent hq (hplan ▸ he)
  -- what has become of the object of an entry
  have hobject : ∀ e ∈ c.plan, ∀ o, h.objectAt (c.slotOf e) = some o →
      (h₁.finalized .idle).objectAt e.destinationSlot =
        some (o.promote.forward (h.forwardBy c.finalIds)) := by
    intro e he o ho
    obtain ⟨o₁, ho₁, hpromoted⟩ := hs.objects e he o ho
    rw [IncrementalCompaction.slotOf_of_done (hdone e he)] at ho₁
    rw [objectAt_finalized, ho₁, Option.map_some]
    have hgeneration : o₁.generation = .old := by
      have hisOld := hl₁.allOld hq _ o₁ ho₁
      unfold Object.isOld at hisOld
      simpa using hisOld
    have hmarked : o₁.marked = false := (hw₁.compacting hs.phase).1 _ o₁ ho₁
    have hsame : o₁.payload = o.payload ∧ o₁.serial = o.serial := by
      rcases hpromoted with rfl | rfl <;> exact ⟨rfl, rfl⟩
    congr 1
    refine Object.ext_payload hmarked hgeneration ?_ hsame.2
    show o₁.payload.forward (fun id => some (h₁.finalId id)) = o.payload.forward _
    rw [hsame.1]
    refine Payload.forward_congr fun id hid => ?_
    have hv := hw.fields _ o ho _ hid
    obtain ⟨e', hn⟩ := (hl.resolves_iff hphase).mp (valid_object.mp hv)
    have hn₁ := hn.later hs.tables hs.cursor
    rw [hl₁.finalId_eq hw₁.storage hs.phase hq ((hl₁.resolves_iff hs.phase).mpr ⟨e', hn₁⟩),
      hl₁.canonical_of_names hw₁.storage hs.phase hn₁,
      IncrementalCompaction.idOf_of_done (hdone e' hn.planned), hl.forwardBy_finalIds hphase hn]
  have hlookup : ∀ e ∈ c.plan, (h₁.finalized .idle).lookup e.destinationId =
      (h₁.finalized .idle).objectAt e.destinationSlot := by
    intro e he
    have hid := hl₁.lookup_idOf (hplan ▸ he : e ∈ c₁.plan)
    rw [IncrementalCompaction.idOf_of_done (hdone e he),
      IncrementalCompaction.slotOf_of_done (hdone e he)] at hid
    rw [lookup_finalized, hid, objectAt_finalized]
  have hids : ∀ ids : List ObjectId, (∀ id ∈ ids, ∃ e ∈ c.plan, e.sourceId = id) →
      ids.map c₁.currentOf = (ids.map c.currentOf).filterMap (h.forwardBy c.finalIds) := by
    intro ids hsources
    rw [List.filterMap_map, ← List.filterMap_eq_map]
    refine List.filterMap_congr fun id hid => ?_
    obtain ⟨e, he, rfl⟩ := hsources id hid
    show some (c₁.currentOf e.sourceId) = h.forwardBy c.finalIds (c.currentOf e.sourceId)
    rw [hl₁.currentOf_sourceId (hplan ▸ he), IncrementalCompaction.idOf_of_done (hdone e he),
      hl.currentOf_sourceId he,
      hl.forwardBy_finalIds hphase (IncrementalCompaction.names_idOf he)]
  have hshadow : c₁.shadowWeakRefs = c.shadowWeakRefs ∧
      c₁.shadowEphemerons = c.shadowEphemerons ∧
      c₁.shadowInternTable = c.shadowInternTable ∧
      c₁.shadowGenerations = c.shadowGenerations := by
    rw [hs.tables]
    exact ⟨rfl, rfl, rfl, rfl⟩
  refine ⟨⟨⟨?_, ?_, ?_, ?_⟩, ?_, ?_, ?_, ?_, ?_, hs.stressConfig⟩, ?_, ?_, ?_, hwf, hold, ?_, rfl,
    rfl⟩
  · intro slot o id' ho hid'
    obtain ⟨e, he, rfl, rfl⟩ := IncrementalCompaction.finalIds_eq_some hid'
    refine ⟨_, (hlookup e he).trans (hobject e he o ho), rfl⟩
  · intro slot' o' ho'
    rw [objectAt_finalized, Option.map_eq_some_iff] at ho'
    obtain ⟨o₁, ho₁, rfl⟩ := ho'
    obtain ⟨e, he, rfl⟩ := hl₁.occupied slot' o₁ ho₁
    have he' : e ∈ c.plan := hplan ▸ he
    obtain ⟨o, -, ho, -⟩ := hl.objects e he'
    refine ⟨c.slotOf e, o, e.destinationId, ho, hl.finalIds_slotOf he', ?_⟩
    rw [(hl.planned e he').destination, IncrementalCompaction.slotOf_of_done (hdone e he')]
  · intro slot₁ slot₂ o₁ o₂ id₁ id₂ ho₁ ho₂ hid₁ hid₂ _ _ hlt
    obtain ⟨e₁, he₁, rfl, rfl⟩ := IncrementalCompaction.finalIds_eq_some hid₁
    obtain ⟨e₂, he₂, rfl, rfl⟩ := IncrementalCompaction.finalIds_eq_some hid₂
    have hends := hl.destinationSlot_add_le he₁ he₂ ((hl.slotOf_lt_iff he₁ he₂).mp hlt)
    have hpos := hl.width_pos he₁
    rw [(hl.planned e₁ he₁).destination, (hl.planned e₂ he₂).destination]
    omega
  · intro slot o ho _
    have hsome : ∀ id, .object id ∈ o.payload.allFields →
        (h.forwardBy c.finalIds id).isSome = true := by
      intro id hid
      obtain ⟨e', hn⟩ := (hl.resolves_iff hphase).mp (valid_object.mp (hw.fields slot o ho _ hid))
      rw [hl.forwardBy_finalIds hphase hn]
      rfl
    refine ⟨fun id hid => hsome id (List.mem_append_left _ hid), fun key value hp _ => ?_⟩
    exact hsome value (by simp [hp, Payload.allFields, Payload.weakFields])
  · show h₁.rootCells.map h₁.canonicalValue = _
    rw [hs.rootCells]
    exact List.map_congr_left fun value hvalue =>
      hs.canonicalValue_eq hw hw₁ hphase hq (hw.cells value hvalue)
  · show (h₁.handleRoots.map fun root =>
      { root with slot := h₁.canonicalValue root.slot }) = _
    rw [hs.handleRoots]
    refine List.map_congr_left fun root hroot => ?_
    rw [hs.canonicalValue_eq hw hw₁ hphase hq (hw.handles root hroot)]
  · show h₁.weakRefs = _
    rw [hl₁.weakRefs, hl.weakRefs, hshadow.1]
    exact hids _ fun id hid => hl.shadowIds id (.inl hid)
  · show h₁.ephemerons = _
    rw [hl₁.ephemerons, hl.ephemerons, hshadow.2.1]
    exact hids _ fun id hid => hl.shadowIds id (.inr (.inl hid))
  · show h₁.internTable = _
    rw [hl₁.internTable, forwardInternTable, hl.internTable, hshadow.2.2.1, List.filterMap_map,
      ← List.filterMap_eq_map]
    refine List.filterMap_congr fun entry hentry => ?_
    have hid := hl.shadowIds entry.canonical (.inr (.inr (List.mem_map_of_mem hentry)))
    obtain ⟨e, he, heq⟩ := hid
    have hcurrent : c₁.currentOf entry.canonical = e.destinationId := by
      rw [← heq, hl₁.currentOf_sourceId (hplan ▸ he),
        IncrementalCompaction.idOf_of_done (hdone e he)]
    have hforward : h.forwardBy c.finalIds (c.currentOf entry.canonical) =
        some e.destinationId := by
      rw [← heq, hl.currentOf_sourceId he,
        hl.forwardBy_finalIds hphase (IncrementalCompaction.names_idOf he)]
    simp only [Function.comp_apply, hcurrent, hforward, Option.map_some]
  · intro slot o id' ho hid'
    obtain ⟨e, he, rfl, rfl⟩ := IncrementalCompaction.finalIds_eq_some hid'
    rw [(hl.planned e he).destination]
    exact hobject e he o ho
  · exact fun e he => hl₁.reached e (hplan ▸ he) (hdone e he)
  · intro slot hslot
    rw [← hshadow.2.2.2]
    exact hl₁.kept slot fun e he _ => hslot e (hplan ▸ he)
  · rw [← hs.length]
    exact List.length_map _

/-- Finishing the phase never throws. -/
theorem wp_finishIncrementalCompactionImpl (hw : h.Wf) (hphase : h.phase = .compacting c)
    (hcells : ∀ value ∈ cells, h.Valid value) :
    wp (finishIncrementalCompactionImpl cells)
      (fun cells' h' => Finished c h h' ∧ cells' = cells.map (h.forwardRoot c.finalIds))
      (fun _ _ => False) h := by
  have hl := (hw.compacting hphase).2
  have hcursor := hl.cursor
  have hend : ∀ result h₁, h.StepsBy c (c.plan.length - c.cursor) cells result h₁ →
      wp (finalizeIncrementalCompaction result.2)
        (fun cells' h' => Finished c h h' ∧ cells' = cells.map (h.forwardRoot c.finalIds))
        (fun _ _ => False) h₁ := by
    intro result h₁ hpost
    obtain ⟨c₁, hsteps, hcursor₁⟩ := hpost.steps
    have hcount := hpost.count
    have hq : c₁.cursor = c₁.plan.length := by
      have hplan : c₁.plan = c.plan := by rw [hsteps.tables]
      rw [hplan]
      omega
    obtain ⟨hok, -⟩ := finalizeIncrementalCompaction_eq_ok hpost.wf hsteps.phase hq hpost.cells
    rw [wp_eq_ok hok]
    refine ⟨hsteps.finished hw hpost.wf hphase hq hpost.cells, ?_⟩
    rw [hsteps.cells]
    exact List.map_congr_left fun value hvalue =>
      hsteps.canonicalValue_eq hw hpost.wf hphase hq (hcells value hvalue)
  unfold finishIncrementalCompactionImpl
  rw [wp_bind, wp_get]
  simp only [hphase]
  split
  · rw [wp_bind, wp_map]
    exact wp_mono (wp_incrementalCompactStepImpl hw hphase hcells) hend fun _ _ he => he
  · next hne =>
    refine hend (0, cells) h (.refl hw hphase hcells ?_)
    have heq : c.cursor = c.plan.length := not_not.mp hne
    omega

end Finish

end Heap

/-! ## Leaving the incremental phases -/

namespace Heap

/-- A program that stops because a slot has used up its generations. -/
def StopsExhausted (e : HeapError) (h : Heap) : Prop := e = generationExhausted ∧ h.Exhausted

/-- What an operation may leave behind when it throws: a heap that keeps the invariant or, if a
slot has used up its generations, one with the marks of the collection that has stopped. -/
def Throws (e : HeapError) (h : Heap) : Prop :=
  h.Wf ∨ StopsExhausted e h ∧ h.Sound ∧ h.phase = .idle

/-- The strings of `h` under their names in `h'`: the caller's cells and the canonical strings
keep their bytes. -/
structure Carries (h h' : Heap) (cells cells' : List Value) : Prop where
  cells : List.Forall₂ (fun value value' => ∀ id bytes, value = .object id →
    h.checkedString id = .ok bytes → ∃ id', value' = .object id' ∧
      h'.checkedString id' = .ok bytes) cells cells'
  interned : ∀ entry' ∈ h'.internTable, ∃ entry ∈ h.internTable, ∀ bytes,
    h'.StringAt entry'.canonical bytes → h.StringAt entry.canonical bytes

theorem Carries.refl (h : Heap) (cells : List Value) : h.Carries h cells cells where
  cells := List.forall₂_same.mpr fun _ _ id _ heq hbytes => ⟨id, heq, hbytes⟩
  interned entry hentry := ⟨entry, hentry, fun _ hbytes => hbytes⟩

theorem Carries.trans {h h₁ h₂ : Heap} {cells cells₁ cells₂ : List Value}
    (hc : h.Carries h₁ cells cells₁) (hc' : h₁.Carries h₂ cells₁ cells₂) :
    h.Carries h₂ cells cells₂ where
  cells :=
    forall₂_trans (fun _ _ _ hhead hhead' id bytes heq hbytes =>
      let ⟨id₁, heq₁, hbytes₁⟩ := hhead id bytes heq hbytes
      hhead' id₁ bytes heq₁ hbytes₁) hc.cells hc'.cells
  interned entry₂ hentry₂ := by
    obtain ⟨entry₁, hentry₁, hback₁⟩ := hc'.interned entry₂ hentry₂
    obtain ⟨entry, hentry, hback⟩ := hc.interned entry₁ hentry₁
    exact ⟨entry, hentry, fun bytes hbytes => hback bytes (hback₁ bytes hbytes)⟩

/-- `h'` is a heap outside the incremental phases, made of `h` by a movement under which the
caller's `cells` became `cells'`. -/
structure Rests (h h' : Heap) (cells cells' : List Value) : Prop where
  wf : h'.Wf
  idle : h'.phase = .idle
  valid : ∀ value ∈ cells', h'.Valid value
  arity : cells'.length = cells.length
  carries : h.Carries h' cells cells'

section Rest

variable {h h' : Heap} {cells : List Value} {kind : CollectionKind}

theorem Renames.valid_forwardRoot {φ : ℕ → Option ObjectId} (hr : h.Renames h' φ)
    {value : Value} (hkept : ∀ id, value = .object id → (h.forwardBy φ id).isSome = true) :
    h'.Valid (h.forwardRoot φ value) := hr.relocates.valid hkept

/-- A movement carries the strings it keeps. -/
theorem Renames.carries {φ : ℕ → Option ObjectId} (hr : h.Renames h' φ) (hi : h.Interns)
    (hkept : ∀ value ∈ cells, ∀ id, value = .object id → (h.forwardBy φ id).isSome = true) :
    h.Carries h' cells (cells.map (h.forwardRoot φ)) where
  cells := by
    refine List.forall₂_map_right_iff.mpr (List.forall₂_same.mpr fun value hvalue id bytes heq
      hbytes => ?_)
    obtain ⟨id', hid'⟩ := Option.isSome_iff_exists.mp (hkept value hvalue id heq)
    refine ⟨id', ?_, hr.relocates.checkedString hid' hbytes⟩
    rw [heq, forwardRoot, Value.mapObject_object, hid', Option.getD_some]
  interned entry' hentry' := by
    rw [hr.internTable, forwardInternTable, List.mem_filterMap] at hentry'
    obtain ⟨entry, hentry, hmap⟩ := hentry'
    obtain ⟨id', hid', rfl⟩ := Option.map_eq_some_iff.mp hmap
    obtain ⟨o, ho, -⟩ := hi.listed hentry
    exact ⟨entry, hentry, fun bytes => (hr.relocates.stringAt_iff hid' ⟨o, ho⟩).mp⟩

theorem survives_finish {c : IncrementalCompaction} (hw : h.Wf) (hphase : h.phase = .compacting c)
    {value : Value} (hv : h.Valid value) :
    ∀ id, value = .object id → (h.forwardBy c.finalIds id).isSome = true := by
  intro id heq
  obtain ⟨-, hl⟩ := hw.compacting hphase
  obtain ⟨e, hn⟩ := (hl.resolves_iff hphase).mp (hv id heq)
  rw [hl.forwardBy_finalIds hphase hn]
  rfl

theorem Finished.valid {c : IncrementalCompaction} (hf : Finished c h h') (hw : h.Wf)
    (hphase : h.phase = .compacting c) {value : Value} (hv : h.Valid value) :
    h'.Valid (h.forwardRoot c.finalIds value) :=
  hf.valid_forwardRoot (survives_finish hw hphase hv)

/-- A root of a collection survives it. -/
theorem Collected.survives {φ : ℕ → Option ObjectId} {roots : List Value}
    (hc : Collected (h.Live kind roots) h h' φ) {value : Value} (hroot : value ∈ roots)
    (hv : h.Valid value) : ∀ id, value = .object id → (h.forwardBy φ id).isSome = true := by
  intro id heq
  obtain ⟨slot, o, hr⟩ := hv id heq
  rw [forwardBy_of_resolve hr, hc.survivors]
  exact .init (.inr ⟨id, o, heq ▸ hroot, hr⟩)

theorem Collected.rests {φ : ℕ → Option ObjectId} (hi : h.Interns)
    (hc : Collected (h.Live kind (h.traceCollectionRoots cells)) h h' φ)
    (hcells : ∀ value ∈ cells, h.Valid value) :
    h.Rests h' cells (cells.map (h.forwardRoot φ)) where
  wf := hc.wf
  idle := hc.phase
  valid value' hvalue' := by
    obtain ⟨value, hvalue, rfl⟩ := List.mem_map.mp hvalue'
    exact hc.valid_forwardRoot (hc.survives (by simp [traceCollectionRoots, hvalue])
      (hcells value hvalue))
  arity := List.length_map _
  carries := hc.carries hi fun value hvalue =>
    hc.survives (by simp [traceCollectionRoots, hvalue]) (hcells value hvalue)

theorem Finished.rests {c : IncrementalCompaction} (hf : Finished c h h') (hw : h.Wf)
    (hphase : h.phase = .compacting c) (hcells : ∀ value ∈ cells, h.Valid value) :
    h.Rests h' cells (cells.map (h.forwardRoot c.finalIds)) where
  wf := hf.wf
  idle := hf.phase
  valid value' hvalue' := by
    obtain ⟨value, hvalue, rfl⟩ := List.mem_map.mp hvalue'
    exact hf.valid hw hphase (hcells value hvalue)
  arity := List.length_map _
  carries := hf.carries hw.interns fun value hvalue =>
    survives_finish hw hphase (hcells value hvalue)

/-- Finishing an active compaction never throws; other phases stay. -/
theorem wp_finishActiveCompaction (hw : h.Wf) (hcells : ∀ value ∈ cells, h.Valid value) :
    wp (finishActiveCompaction cells)
      (fun cells' h' => h'.Wf ∧ (∀ value ∈ cells', h'.Valid value) ∧
        cells'.length = cells.length ∧ h'.incrementalCompactionActive = false ∧
        (h.incrementalCompactionActive = false → h' = h ∧ cells' = cells) ∧
        h.Carries h' cells cells')
      (fun _ _ => False) h := by
  unfold finishActiveCompaction
  rw [wp_bind, wp_get]
  split
  · next hactive =>
    cases hphase : h.phase with
    | compacting c =>
      refine wp_mono (wp_finishIncrementalCompactionImpl hw hphase hcells)
        (fun cells' h' hpost => ?_) fun _ _ he => he
      obtain ⟨hf, rfl⟩ := hpost
      have hr := hf.rests hw hphase hcells
      refine ⟨hr.wf, hr.valid, hr.arity, compactionActive_of_idle hf.phase, fun hnot => ?_,
        hr.carries⟩
      rw [hactive] at hnot
      cases hnot
    | _ =>
      rw [incrementalCompactionActive, hphase] at hactive
      cases hactive
  · next hactive =>
    rw [Bool.not_eq_true] at hactive
    exact ⟨hw, hcells, rfl, hactive, fun _ => ⟨rfl, rfl⟩, .refl h cells⟩

/-- The first part of a collection leaves the incremental phases, or stops because a slot has
used up its generations. -/
theorem wp_finishIncrementalPhase (hw : h.Wf) (hcells : ∀ value ∈ cells, h.Valid value) :
    wp (finishIncrementalPhase cells) (fun cells' h' => h.Rests h' cells cells')
      (fun e h' => h'.Wf ∧ StopsExhausted e h') h := by
  unfold finishIncrementalPhase
  rw [wp_bind]
  refine wp_mono (wp_finishActiveCompaction hw hcells) (fun cells₁ h₁ hpost => ?_)
    fun _ _ he => he.elim
  obtain ⟨hw₁, hcells₁, harity₁, hactive₁, -, hcarries₁⟩ := hpost
  rw [wp_bind, wp_get]
  split
  · next hmarking =>
    cases hphase : h₁.phase with
    | marking worklist =>
      refine wp_mono (wp_finishIncrementalMarkingImpl hw₁ hphase hcells₁)
        (fun cells' h' hpost => ?_) fun e h' he => ?_
      swap
      · obtain ⟨⟨hm, -, hw'⟩, he, hruns⟩ := he
        exact ⟨hw', he, hm.exhausted hruns⟩
      obtain ⟨φ, hc, rfl⟩ := hpost
      have hr := hc.rests hw₁.interns hcells₁
      exact ⟨hr.wf, hr.idle, hr.valid, hr.arity.trans harity₁, hcarries₁.trans hr.carries⟩
    | _ =>
      rw [incrementalMarkingActive, hphase] at hmarking
      cases hmarking
  · next hmarking =>
    rw [Bool.not_eq_true] at hmarking
    exact ⟨hw₁, idle_of_inactive hmarking hactive₁, hcells₁, harity₁, hcarries₁⟩

/-- A collection keeps the invariant, or stops because a slot has used up its generations. -/
theorem wp_collectImpl (hw : h.Wf) (hcells : ∀ value ∈ cells, h.Valid value) :
    wp (collectImpl kind cells) (fun cells' h' => h.Rests h' cells cells') Throws h := by
  unfold collectImpl
  rw [wp_bind]
  refine wp_mono (wp_finishIncrementalPhase hw hcells) (fun cells₁ h₁ hrests => ?_)
    fun _ _ he => .inl he.1
  refine wp_mono (wp_collectAtomically hrests.wf hrests.idle hrests.valid)
    (fun cells' h' hpost => ?_) fun e h' he => ?_
  swap
  · obtain ⟨hm, he, hruns⟩ := he
    exact .inr ⟨⟨he, hm.same.exhausted hruns⟩, hm.sound hrests.wf.toSound,
      hm.phase.trans hrests.idle⟩
  obtain ⟨φ, hc, rfl⟩ := hpost
  have hr := hc.rests hrests.wf.interns hrests.valid
  exact ⟨hr.wf, hr.idle, hr.valid, hr.arity.trans hrests.arity,
    hrests.carries.trans hr.carries⟩

end Rest

end Heap

end LanguageRuntime.Gc
