import LanguageRuntime.Gc.Evolution
import LanguageRuntime.Gc.LedgerTheorems
import LanguageRuntime.Gc.RunTheorems
import LanguageRuntime.Gc.SurvivalTheorems

/-!
# Collections, phases, growth and births as evolutions

The parts the operations are made of leave later states of the heap, and an allocation leaves one
more object in it.
-/

namespace LanguageRuntime.Gc

open LanguageRuntime LanguageRuntime.Library

/-- Serial numbers only grow. -/
theorem GrowthInvariant.nextSerial (n : ℕ) : GrowthInvariant fun h => n ≤ h.nextSerial where
  frame hh _ _ _ hserial _ := hserial ▸ hh
  compacted hh _ _ _ _ _ _ hserial _ := hserial ▸ hh
  evict hh _ _ _ _ hserial _ := hserial ▸ hh
  opened _ _ hh _ _ := hh
  moved hh _ _ _ := hh
  reserved hh _ := hh
  installed _ _ _ hh _ _ _ := Nat.le_succ_of_le hh
  resize _ hh := hh
  relocated hh _ _ _ _ _ _ _ hserial _ := hserial ▸ hh

namespace Heap

section Evolution

variable {h h₁ h' : Heap} {φ : ℕ → Option ObjectId} {cells cells₁ : List Value}
  {kind : CollectionKind}

/-- What an operation may leave behind when it throws: a later state, or a heap out of its
limits. -/
def Ends (h h' : Heap) : Prop :=
  h'.Wf ∧ h.Evolves h' [] [] ∨ h'.Exhausted ∨ h'.Oversized

theorem Evolves.ends (he : h.Evolves h' cells cells₁) (hw : h'.Wf) : h.Ends h' :=
  .inl ⟨hw, he.alone⟩

theorem Ends.after (he : h.Evolves h₁ cells cells₁) (hends : h₁.Ends h') : h.Ends h' :=
  hends.imp_left fun hand => ⟨hand.1, he.alone.trans hand.2⟩

theorem evolves_refl (hs : h.Sound) (hcells : ∀ value ∈ cells, h.Valid value) :
    h.Evolves h cells cells := by
  have hu : Updates Eq h h := ⟨fun slot => by cases h.objectAt slot <;> constructor; rfl, rfl, rfl, rfl⟩
  refine hu.evolves (fun _ _ _ _ heq => ?_) rfl (Nat.le_refl _) rfl rfl hs hcells
  rw [heq]
  exact ⟨rfl, rfl⟩

theorem ends_refl (hw : h.Wf) : h.Ends h := by
  have hnone : ∀ value ∈ ([] : List Value), h.Valid value := nofun
  exact (evolves_refl hw.toSound hnone).ends hw

/-! ## Movements -/

/-- A movement that carries the serial numbers along. -/
theorem Renames.evolvesBy (hr : h.Renames h' φ)
    (hserial : ∀ slot o id', h.objectAt slot = some o → φ slot = some id' →
      ∃ o', h'.objectAt id'.slot = some o' ∧ o'.serial = o.serial)
    (hnext : h.nextSerial ≤ h'.nextSerial) (hs : h.Sound) :
    h.EvolvesBy h' (fun slot => (φ slot).map ObjectId.slot) (h.forwardBy φ) where
  renames id slot o hres := by
    rw [forwardBy_of_resolve hres]
    refine ⟨Option.isSome_map.symm, fun id' hid' => ?_⟩
    obtain ⟨o', ho', -⟩ := hr.relocates.target slot o id' (objectAt_of_resolve hres) hid'
    exact .object hres (by rw [hid']; rfl) (resolve_of_lookup ho')
  moved slot o slot' ho hslot := by
    obtain ⟨id', hid', rfl⟩ := Option.map_eq_some_iff.mp hslot
    obtain ⟨o', ho', hp⟩ := hr.relocates.target slot o id' ho hid'
    obtain ⟨o₁, ho₁, hsame⟩ := hserial slot o id' ho hid'
    rw [objectAt_of_lookup ho'] at ho₁
    cases ho₁
    exact ⟨o', objectAt_of_lookup ho', hsame, hp⟩
  closed slot o ho hsome := hr.relocates.closed slot o ho (by rwa [Option.isSome_map] at hsome)
  origin slot' o' ho' := by
    obtain ⟨slot, o, id', ho, hid', rfl⟩ := hr.relocates.origin slot' o' ho'
    exact ⟨slot, o, ho, by rw [hid']; rfl⟩
  interned entry hentry slot o hres hsome := by
    obtain ⟨slot', hslot'⟩ := Option.isSome_iff_exists.mp hsome
    obtain ⟨id', hid', rfl⟩ := Option.map_eq_some_iff.mp hslot'
    obtain ⟨o', ho', -⟩ := hr.relocates.target slot o id' (objectAt_of_resolve hres) hid'
    refine ⟨⟨entry.contentHash, id'⟩, ?_, .object hres hslot' (resolve_of_lookup ho')⟩
    rw [hr.internTable, mem_forwardInternTable]
    exact ⟨entry, hentry, by rw [forwardBy_of_resolve hres, hid'], rfl⟩
  canonical entry' hentry' := by
    rw [hr.internTable, mem_forwardInternTable] at hentry'
    obtain ⟨entry, hentry, hid', -⟩ := hentry'
    obtain ⟨slot, o, hres⟩ := hs.resolves_interned hentry
    rw [forwardBy_of_resolve hres] at hid'
    obtain ⟨o', ho', -⟩ := hr.relocates.target slot o _ (objectAt_of_resolve hres) hid'
    exact ⟨entry, hentry, .object hres (by rw [hid']; rfl) (resolve_of_lookup ho')⟩
  nextSerial := hnext

/-- A value that the movement keeps has followed. -/
theorem Renames.follows (hr : h.Renames h' φ) {value : Value} (hv : h.Valid value)
    (hkept : ∀ id, value = .object id → (h.forwardBy φ id).isSome = true) :
    h.Follows h' (fun slot => (φ slot).map ObjectId.slot) value (h.forwardRoot φ value) := by
  cases value with
  | object id =>
    obtain ⟨slot, o, hres⟩ := valid_object.mp hv
    obtain ⟨id', hid'⟩ := Option.isSome_iff_exists.mp (hkept id rfl)
    have heq : h.forwardRoot φ (.object id) = .object id' := by
      rw [forwardRoot, Value.mapObject_object, hid', Option.getD_some]
    rw [forwardBy_of_resolve hres] at hid'
    obtain ⟨o', ho', -⟩ := hr.relocates.target slot o id' (objectAt_of_resolve hres) hid'
    rw [heq]
    exact .object hres (by rw [hid']; rfl) (resolve_of_lookup ho')
  | _ => exact .scalar rfl

theorem Renames.evolves (hr : h.Renames h' φ)
    (hserial : ∀ slot o id', h.objectAt slot = some o → φ slot = some id' →
      ∃ o', h'.objectAt id'.slot = some o' ∧ o'.serial = o.serial)
    (hnext : h.nextSerial ≤ h'.nextSerial)
    (hs : h.Sound) (hroots : h.KeepsRoots φ (h.traceCollectionRoots []))
    (hcells : ∀ value ∈ cells, h.Valid value) (hkept : h.KeepsRoots φ cells) :
    h.Evolves h' cells (cells.map (h.forwardRoot φ)) := by
  refine ⟨_, _, hr.evolvesBy hserial hnext hs, ?_, ?_, ?_⟩
  · rw [List.forall₂_map_right_iff, List.forall₂_same]
    exact fun value hvalue => hr.follows (hcells value hvalue) (hkept value hvalue)
  · rw [hr.rootCells, List.forall₂_map_right_iff, List.forall₂_same]
    exact fun value hvalue => hr.follows (hs.cells value hvalue)
      (hroots value (List.mem_append_left _ (List.mem_append_left _ hvalue)))
  · rw [hr.handleRoots, List.forall₂_map_right_iff, List.forall₂_same]
    refine fun root hroot => ⟨rfl, hr.follows (hs.handles root hroot) (hroots root.slot ?_)⟩
    exact List.mem_append_left _ (List.mem_append_right _ (List.mem_map_of_mem hroot))

theorem Retains.evolves {live : ℕ → Prop} (hr : Retains live h h' φ)
    (hnext : h.nextSerial ≤ h'.nextSerial)
    (hs : h.Sound) (hroots : h.KeepsRoots φ (h.traceCollectionRoots []))
    (hcells : ∀ value ∈ cells, h.Valid value) (hkept : h.KeepsRoots φ cells) :
    h.Evolves h' cells (cells.map (h.forwardRoot φ)) :=
  hr.toRenames.evolves (fun slot o id' ho hid' => ⟨_, hr.moved slot o id' ho hid', rfl⟩) hnext
    hs hroots hcells hkept

/-- A collection keeps its roots. -/
theorem kept_of_mem {id : ObjectId} {slot : ℕ} {o : Object}
    (hmem : .object id ∈ h.traceCollectionRoots cells)
    (hr : h.resolve id = .ok (slot, o)) : h.Kept kind (h.traceCollectionRoots cells) slot := by
  have hroot : ∀ kind, h.Live kind (h.traceCollectionRoots cells) slot := fun kind =>
    .init (.inr ⟨id, o, hmem, hr⟩)
  unfold Kept
  split
  · exact hroot _
  · exact ⟨o, objectAt_of_resolve hr⟩
  · exact hroot _

theorem wp_collectImpl_evolves (hw : h.Wf) (hcells : ∀ value ∈ cells, h.Valid value) :
    wp (collectImpl kind cells) (fun cells' h' => h'.Wf ∧ h'.phase = .idle ∧
        h.Evolves h' cells cells') (fun _ h' => h.Ends h') h := by
  have hnext := (GrowthInvariant.nextSerial h.nextSerial).heapInvariant.collect kind cells h
    (Nat.le_refl _)
  refine wp_mono (wp_and (wp_collectImpl_gathers hw hcells) hnext)
    (fun cells' h' hpost => ?_) fun e h' he => .inr (.inl he.1.2)
  obtain ⟨⟨φ, hg, rfl⟩, hnext⟩ := hpost
  have hkept : h.KeepsRoots φ (h.traceCollectionRoots cells) := by
    rintro value hvalue id rfl
    obtain ⟨slot, o, hr⟩ := valid_object.mp (hw.traceCollectionRoots hcells _ hvalue)
    rw [forwardBy_of_resolve hr]
    exact (hg.survivors slot).mpr (kept_of_mem hvalue hr)
  refine ⟨hg.wf, hg.phase, hg.toRetains.evolves hnext hw.toSound ?_ hcells ?_⟩
  · refine fun value hvalue => hkept value (List.mem_append_left _ ?_)
    rwa [traceCollectionRoots, List.append_nil] at hvalue
  · exact fun value hvalue => hkept value (List.mem_append_right _ hvalue)

/-- A collection throws when it has run out of generations only. -/
theorem wp_collectImpl_spent (hw : h.Wf) (hcells : ∀ value ∈ cells, h.Valid value) :
    wp (collectImpl kind cells) (fun _ _ => True) (fun _ h' => h'.Exhausted ∨ h'.Oversized) h :=
  wp_mono (wp_collectImpl_gathers hw hcells) (fun _ _ _ => trivial) fun _ _ he => .inl he.2

/-! ## The incremental phases -/

theorem SameButMarks.evolves (hm : h.SameButMarks h') (hnext : h.nextSerial ≤ h'.nextSerial)
    (hs : h.Sound) (hcells : ∀ value ∈ cells, h.Valid value) : h.Evolves h' cells cells := by
  refine hm.updates.evolves (fun _ _ _ _ hsame => ?_) hm.internTable hnext hm.rootCells
    hm.handleRoots hs hcells
  exact ⟨hsame.serial, hsame.payload⟩

theorem Finished.evolves {c : IncrementalCompaction} (hf : Finished c h h') (hw : h.Wf)
    (hphase : h.phase = .compacting c) (hnext : h.nextSerial ≤ h'.nextSerial)
    (hcells : ∀ value ∈ cells, h.Valid value) :
    h.Evolves h' cells (cells.map (h.forwardRoot c.finalIds)) :=
  (hf.retains hw hphase).evolves hnext hw.toSound
    (fun value hvalue => survives_finish hw hphase
      (hw.traceCollectionRoots (List.forall_mem_nil _) value hvalue)) hcells
    fun value hvalue => survives_finish hw hphase (hcells value hvalue)

theorem wp_finishIncrementalCompactionImpl_evolves {c : IncrementalCompaction} (hw : h.Wf)
    (hphase : h.phase = .compacting c) (hcells : ∀ value ∈ cells, h.Valid value) :
    wp (finishIncrementalCompactionImpl cells) (fun cells' h' => h'.Wf ∧ h'.phase = .idle ∧
        h.Evolves h' cells cells') (fun _ _ => False) h := by
  have hnext := (GrowthInvariant.nextSerial h.nextSerial).heapInvariant.finish cells h
    (Nat.le_refl _)
  refine wp_mono (wp_and (wp_finishIncrementalCompactionImpl hw hphase hcells) hnext)
    (fun cells' h' hpost => ?_) fun _ _ he => he.1
  obtain ⟨⟨hf, rfl⟩, hnext⟩ := hpost
  exact ⟨hf.wf, hf.phase, hf.evolves hw hphase hnext hcells⟩

theorem compacting_of_active (hactive : h.incrementalCompactionActive = true) :
    ∃ c, h.phase = .compacting c := by
  rw [incrementalCompactionActive] at hactive
  split at hactive
  · next c hphase => exact ⟨c, hphase⟩
  · cases hactive

theorem wp_finishActiveCompaction_evolves (hw : h.Wf) (hcells : ∀ value ∈ cells, h.Valid value) :
    wp (finishActiveCompaction cells) (fun cells' h' => h'.Wf ∧
        h'.incrementalCompactionActive = false ∧ h.Evolves h' cells cells')
      (fun _ _ => False) h := by
  unfold finishActiveCompaction
  rw [wp_bind, wp_get]
  refine wp_ite (fun hactive => ?_) fun hinactive => ?_
  · obtain ⟨c, hphase⟩ := compacting_of_active hactive
    exact wp_mono (wp_finishIncrementalCompactionImpl_evolves hw hphase hcells)
      (fun _ _ hpost => ⟨hpost.1, compactionActive_of_idle hpost.2.1, hpost.2.2⟩) fun _ _ he => he
  · exact ⟨hw, by simpa using hinactive, evolves_refl hw.toSound hcells⟩

/-- The slot of an object after some steps of a compaction. -/
def stepSlot (c c' : IncrementalCompaction) (slot : ℕ) : Option ℕ :=
  (c.plan.find? fun e => c.slotOf e = slot).map c'.slotOf

section Steps

variable {c c' : IncrementalCompaction} {e : IncrementalCompactionEntry}

theorem stepSlot_slotOf (hl : c.Layout h) (he : e ∈ c.plan) :
    stepSlot c c' (c.slotOf e) = some (c'.slotOf e) := by
  rw [stepSlot]
  cases hfind : c.plan.find? (fun e' => c.slotOf e' = c.slotOf e) with
  | none => simpa using List.find?_eq_none.mp hfind e he
  | some e' =>
    have hslot : c.slotOf e' = c.slotOf e := by simpa using List.find?_some hfind
    rw [hl.eq_of_slotOf (List.mem_of_find?_eq_some hfind) he hslot]
    rfl

theorem Steps.follows (hs : h.Steps h' c c' cells cells₁) (hw : h.Wf) (hw' : h'.Wf)
    (hphase : h.phase = .compacting c) {id : ObjectId} (hr : h.Resolves id) :
    h.Follows h' (stepSlot c c') (.object id) (.object id) := by
  have hl := (hw.compacting hphase).2
  have hl' := (hw'.compacting hs.phase).2
  obtain ⟨e, hn⟩ := (hl.resolves_iff hphase).mp hr
  have hn' := hn.later hs.tables hs.cursor
  obtain ⟨o, -, ho, -⟩ := hl.objects e hn.planned
  obtain ⟨o', ho', -⟩ := hs.objects e hn.planned o ho
  exact .object (hl.resolve_of_names hphase hn ho) (stepSlot_slotOf hl hn.planned)
    (hl'.resolve_of_names hs.phase hn' ho')

/-- A canonical string is the same one in both heaps. -/
theorem Steps.follows_shadow (hs : h.Steps h' c c' cells cells₁) (hw : h.Wf) (hw' : h'.Wf)
    (hphase : h.phase = .compacting c) {source : InternEntry} (hsource : source ∈ c.shadowInternTable) :
    h.Follows h' (stepSlot c c') (.object (c.currentOf source.canonical))
      (.object (c'.currentOf source.canonical)) := by
  have hl := (hw.compacting hphase).2
  have hl' := (hw'.compacting hs.phase).2
  have hplan : c'.plan = c.plan := by rw [hs.tables]
  obtain ⟨e, he, hid⟩ := hl.shadowIds source.canonical (.inr (.inr (List.mem_map_of_mem hsource)))
  obtain ⟨o₁, -, ho₁, -⟩ := hl.objects e he
  obtain ⟨o', ho', -⟩ := hs.objects e he o₁ ho₁
  rw [← hid, hl.currentOf_sourceId he, hl'.currentOf_sourceId (hplan ▸ he)]
  exact .object (hl.resolve_of_names hphase (IncrementalCompaction.names_idOf he) ho₁)
    (stepSlot_slotOf hl he)
    (hl'.resolve_of_names hs.phase (IncrementalCompaction.names_idOf (hplan ▸ he)) ho')

theorem Steps.evolvesBy (hs : h.Steps h' c c' cells cells₁) (hw : h.Wf) (hw' : h'.Wf)
    (hphase : h.phase = .compacting c) (hnext : h.nextSerial ≤ h'.nextSerial) :
    h.EvolvesBy h' (stepSlot c c') some where
  renames id slot o hr := by
    have hf := hs.follows hw hw' hphase ⟨slot, o, hr⟩
    obtain ⟨slot', o', hslot', -⟩ := hf.resolve hr
    rw [hslot']
    exact ⟨rfl, fun id' hid' => Option.some.inj hid' ▸ hf⟩
  moved slot o slot' ho hslot' := by
    have hl := (hw.compacting hphase).2
    obtain ⟨e, he, rfl⟩ := hl.occupied slot o ho
    rw [stepSlot_slotOf hl he] at hslot'
    cases hslot'
    obtain ⟨o', ho', hsame⟩ := hs.objects e he o ho
    have hfields : o'.serial = o.serial ∧ o'.payload = o.payload := by
      rcases hsame with rfl | rfl <;> exact ⟨rfl, rfl⟩
    exact ⟨o', ho', hfields.1, hfields.2.trans (Payload.forward_some _).symm⟩
  closed _ _ _ _ := ⟨fun _ _ => rfl, fun _ _ _ _ => rfl⟩
  origin slot' o' ho' := by
    have hl := (hw.compacting hphase).2
    have hl' := (hw'.compacting hs.phase).2
    obtain ⟨e, he, rfl⟩ := hl'.occupied slot' o' ho'
    have hplan : c'.plan = c.plan := by rw [hs.tables]
    rw [hplan] at he
    obtain ⟨o, -, ho, -⟩ := hl.objects e he
    exact ⟨c.slotOf e, o, ho, stepSlot_slotOf hl he⟩
  interned entry hentry slot o hr hsome := by
    have hl := (hw.compacting hphase).2
    have hl' := (hw'.compacting hs.phase).2
    have hplan : c'.plan = c.plan := by rw [hs.tables]
    have hshadow : c'.shadowInternTable = c.shadowInternTable := by rw [hs.tables]
    rw [hl.internTable, List.mem_map] at hentry
    obtain ⟨source, hsource, rfl⟩ := hentry
    refine ⟨⟨source.contentHash, c'.currentOf source.canonical⟩, ?_, ?_⟩
    · rw [hl'.internTable, hshadow]
      exact List.mem_map_of_mem hsource
    · exact hs.follows_shadow hw hw' hphase hsource
  canonical entry' hentry' := by
    have hl := (hw.compacting hphase).2
    have hl' := (hw'.compacting hs.phase).2
    have hshadow : c'.shadowInternTable = c.shadowInternTable := by rw [hs.tables]
    rw [hl'.internTable, hshadow, List.mem_map] at hentry'
    obtain ⟨source, hsource, rfl⟩ := hentry'
    refine ⟨⟨source.contentHash, c.currentOf source.canonical⟩, ?_, ?_⟩
    · rw [hl.internTable]
      exact List.mem_map_of_mem hsource
    · exact hs.follows_shadow hw hw' hphase hsource
  nextSerial := hnext

/-- What is canonicalized to what it was canonicalized to before has followed. -/
theorem Steps.follows_canonical (hs : h.Steps h' c c' cells cells₁) (hw : h.Wf) (hw' : h'.Wf)
    (hphase : h.phase = .compacting c) {value value' : Value} (hv : h.Valid value)
    (hv' : h'.Valid value') (hsame : h'.canonicalValue value' = h'.canonicalValue value) :
    h.Follows h' (stepSlot c c') value value' := by
  cases value with
  | object id =>
    cases value' with
    | object id' =>
      have hf := hs.follows hw hw' hphase (hv id rfl)
      obtain ⟨slot, o, hr⟩ := hv id rfl
      obtain ⟨slot', o', hslot, hr'⟩ := hf.resolve hr
      have hcanonical : h'.canonical id' = h'.canonical id := Value.object.inj hsame
      obtain ⟨slot₁, o₁, hr₁⟩ := hv' id' rfl
      have heq := hw'.storage.resolve_canonical hr₁
      rw [hcanonical, hw'.storage.resolve_canonical hr'] at heq
      cases heq
      exact .object hr hslot hr₁
    | _ => exact nomatch hsame
  | _ =>
    cases value' with
    | object id' => exact nomatch hsame
    | _ => cases hsame <;> exact .scalar rfl

/-- The root cells and the handles are canonicalized to what they were canonicalized to before. -/
theorem Steps.follows_roots (hs : h.Steps h' c c' cells cells₁) (hw : h.Wf) (hw' : h'.Wf)
    (hphase : h.phase = .compacting c) :
    List.Forall₂ (h.Follows h' (stepSlot c c')) h.rootCells h'.rootCells ∧
      List.Forall₂ (h.FollowsRoot h' (stepSlot c c')) h.handleRoots h'.handleRoots := by
  constructor
  · refine forall₂_of_map_eq hs.rootCells fun value hvalue value' hvalue' hsame => ?_
    exact hs.follows_canonical hw hw' hphase (hw.cells value hvalue) (hw'.cells value' hvalue') hsame
  · refine forall₂_of_map_eq hs.handleRoots fun root hroot root' hroot' hsame => ?_
    obtain ⟨hkey, hslot⟩ := HandleRoot.mk.inj hsame
    exact ⟨hkey, hs.follows_canonical hw hw' hphase (hw.handles root hroot) (hw'.handles root' hroot')
      hslot⟩

theorem Steps.evolves (hs : h.Steps h' c c' cells cells₁) (hw : h.Wf) (hw' : h'.Wf)
    (hphase : h.phase = .compacting c) (hnext : h.nextSerial ≤ h'.nextSerial) :
    h.Evolves h' [] [] :=
  ⟨_, _, hs.evolvesBy hw hw' hphase hnext, .nil, hs.follows_roots hw hw' hphase⟩

end Steps

/-- The sweep in front of the phase clears what has died. -/
theorem Prepares.evolves {marked : Heap} (hp : h.Prepares h' marked) (hs : h.Sound)
    (hc : marked.incrementalCompactionActive = false) (hnext : h.nextSerial ≤ h'.nextSerial) :
    h.Evolves h' [] [] := by
  obtain ⟨planned, -, rfl⟩ := hp.prepared
  have hnone : ∀ value ∈ ([] : List Value), h.Valid value := nofun
  have hmarked := hp.same.marked hs (hs.traceCollectionRoots hnone) hp.live
  rw [← hp.same.traceCollectionRoots] at hmarked
  have hsound := hp.same.sound hs
  have hst := hsound.storage
  have hrenames := renames_prepared planned hst hc hmarked
  refine (hp.same.evolves hnext hs fun _ hvalue => absurd hvalue List.not_mem_nil).trans
    (hrenames.evolves (fun slot o id' ho hid' => ?_) (Nat.le_refl _) hsound ?_
      (fun _ hvalue => absurd hvalue List.not_mem_nil)
      fun _ hvalue => absurd hvalue List.not_mem_nil)
  · obtain ⟨rfl, o₁, ho₁, hm⟩ := liveIds_eq_some.mp hid'
    rw [ho] at ho₁
    cases ho₁
    rw [hst.currentId_eq ho]
    exact ⟨_, objectAt_swept_eq_some.mpr ⟨o, ho, hm, rfl⟩, rfl⟩
  · rintro value hvalue id rfl
    obtain ⟨slot, o, hr⟩ := valid_object.mp (hsound.traceCollectionRoots (List.forall_mem_nil _) _ hvalue)
    obtain ⟨o₀, hr₀, -⟩ := hp.same.updates.symm.resolve hr
    have hmem : .object id ∈ h.traceCollectionRoots [] := hp.same.traceCollectionRoots [] ▸ hvalue
    obtain ⟨o₁, ho₁, hlive⟩ := (hp.live slot).mpr (.init (.inr ⟨id, o₀, hmem, hr₀⟩))
    rw [forwardBy_of_resolve hr, liveIds_eq_some.mpr ⟨rfl, o₁, ho₁, hlive⟩]
    rfl

/-! ## The allocator -/

theorem evolves_resize (size : ℕ) (hs : h.Sound) (hcells : ∀ value ∈ cells, h.Valid value) :
    h.Evolves (h.resize size) cells cells := by
  refine evolves_inPlace (fun id slot o hr => ?_) (fun slot o ho => ?_) (fun slot o' ho' => ?_)
    rfl (Nat.le_refl _) rfl rfl hs hcells
  · exact ⟨o, resolve_resize_iff.mpr hr⟩
  · exact ⟨o, (objectAt_resize h size slot).trans ho, rfl, rfl⟩
  · exact ⟨o', (objectAt_resize h size slot).symm.trans ho'⟩

/-- A growth moves one object, or none. -/
theorem Regrown.evolves {slot width : ℕ} {o : Object} (hg : h.Regrown h' slot width o cells cells₁)
    (hs : h.Sound) (hcells : ∀ value ∈ cells, h.Valid value) : h.Evolves h' cells cells₁ := by
  obtain ⟨hgrows, ⟨rewritten, -, -, rfl⟩, rfl⟩ := hg
  have hrenames : h.Renames (h.grown slot width o rewritten (h.grownPhase slot
      ⟨h.objects.length, kFirstGeneration⟩)) (h.growthIds slot ⟨h.objects.length, kFirstGeneration⟩) :=
    ⟨hgrows.relocates, rfl, rfl, rfl, rfl, rfl, rfl⟩
  refine hrenames.evolves (fun slot₁ o₁ id' ho₁ hid' => ?_) (Nat.le_refl _) hs ?_ hcells ?_
  · exact ⟨_, objectAt_of_lookup (hgrows.target ho₁ hid'), rfl⟩
  · rintro value hvalue id rfl
    exact isSome_growthIds (hs.traceCollectionRoots (List.forall_mem_nil _) _ hvalue id rfl)
  · rintro value hvalue id rfl
    exact isSome_growthIds (hcells _ hvalue id rfl)

theorem Grew.evolves {slot width : ℕ} {o : Object} (hg : h.Grew h' slot width o cells cells₁)
    (hs : h.Sound) (hcells : ∀ value ∈ cells, h.Valid value) : h.Evolves h' cells cells₁ := by
  cases hg with
  | inPlace hg =>
    obtain ⟨⟨size, rfl, -⟩, -⟩ := hg
    exact evolves_resize size hs hcells
  | relocated hg => exact hg.evolves hs hcells

/-- `h'` is `h` with one new object, which `id` names and which has the payload `p`. -/
structure Bears (h h' : Heap) (id : ObjectId) (p : Payload) : Prop where
  wf : h'.Wf
  settled : h'.incrementalCompactionActive = false
  object : ∃ slot o, h'.resolve id = .ok (slot, o) ∧ o.serial = h.nextSerial ∧ o.payload = p
  resolve : ∀ id slot o, h.resolve id = .ok (slot, o) → h'.resolve id = .ok (slot, o)
  origin : ∀ slot o, h'.objectAt slot = some o → h.objectAt slot = some o ∨
    h'.resolve id = .ok (slot, o)
  nextSerial : h'.nextSerial = h.nextSerial + 1
  rootCells : h'.rootCells = h.rootCells
  handleRoots : h'.handleRoots = h.handleRoots
  internTable : h'.internTable = h.internTable

theorem wp_placeObject_bears {p : Payload} (hw : h.Wf) (hc : h.incrementalCompactionActive = false)
    (hf : h.Fresh p) :
    wp (placeObject p) (fun id h' => h.Bears h' id p) (fun _ h' => h.Ends h') h := by
  have hends : h.Ends h := ends_refl hw
  unfold placeObject
  refine wp_query_bind (fun d hd => ?_) fun _ _ => hends
  obtain ⟨hshape, rfl⟩ := validateDescriptorShape_eq_ok hd
  rw [wp_bind]
  refine wp_mono (wp_reserveStorageRun hw hc p.storageSlotCount_pos) (fun base h₁ hpost => ?_)
    fun _ _ heq => heq ▸ hends
  obtain ⟨hfree, hw₁, size, rfl⟩ := hpost
  refine wp_query_bind (fun generation hgeneration => ?_) fun _ _ => ?_
  swap
  · have hnone : ∀ value ∈ ([] : List Value), h.Valid value := nofun
    exact (evolves_resize size hw.toSound hnone).ends hw₁
  have hi : (h.resize size).Installs ⟨p, hshape⟩ base generation :=
    ⟨hw₁.toSound, hc, hfree, lt_of_generationForNewBase hgeneration⟩
  have hf₁ := hf.resize size
  rw [wp_bind, wp_modify, wp_pure, hi.makeObjectId_eq]
  have hw' := hi.sound_install hf₁.fields fun m hm => hf₁.indexedMap hm
  refine ⟨⟨hw', hi.phaseSound hw₁.phase⟩, hi.settled', ⟨_, _, resolve_of_lookup hi.lookup_new, rfl, rfl⟩,
    fun id slot o hr => ?_, fun slot o ho => ?_, rfl, rfl, rfl, rfl⟩
  · exact hi.resolve_old (resolve_resize_iff.mpr hr)
  · rw [hi.objectAt] at ho
    split at ho
    · next heq =>
      cases ho
      rw [heq]
      exact .inr (resolve_of_lookup hi.lookup_new)
    · exact .inl ((objectAt_resize h size slot).symm.trans ho)

/-- A payload, or what a movement has made of the payload before its birth. -/
def Carried (p : Payload) (values : List Value) (p' : Payload) : Prop :=
  p' = p ∧ values = p.allFields ∨ p' = p.replaceFields values

/-- `h'` is a later state of `h` in which `id` names an object born with the payload `p`. -/
def Born (h h' : Heap) (id : ObjectId) (p : Payload) : Prop :=
  ∃ h₁ h₂ id₂ values p₁, h₁.Wf ∧ h.Evolves h₁ p.allFields values ∧ Carried p values p₁ ∧
    h₁.Bears h₂ id₂ p₁ ∧ h₂.Evolves h' [.object id₂] [.object id] ∧ h'.Wf

theorem Born.wf {id : ObjectId} {p : Payload} (hb : h.Born h' id p) : h'.Wf := by
  obtain ⟨h₁, h₂, id₂, values, p₁, -, -, -, -, -, hw⟩ := hb
  exact hw

theorem wp_allocateObject_bears {d : Descriptor} (hw : h.Wf) (hf : h.Fresh d.val) :
    wp (allocateObject d) (fun id h' => ∃ h₁ values p₁, h₁.Wf ∧ h.Evolves h₁ d.val.allFields values ∧
        Carried d.val values p₁ ∧ h₁.Bears h' id p₁) (fun _ h' => h.Ends h') h := by
  unfold allocateObject
  rw [wp_bind, wp_get]
  refine wp_ite (fun hactive => ?_) fun hinactive => ?_
  · cases hphase : h.phase with
    | compacting c =>
      rw [wp_bind]
      refine wp_mono (wp_finishIncrementalCompactionImpl_evolves hw hphase hf.fields)
        (fun values h₁ hpost => ?_) fun _ _ he => he.elim
      obtain ⟨hw₁, hidle, hbefore⟩ := hpost
      have hf₁ := hf.replaceFields hbefore.length_eq hbefore.valid
      exact wp_mono (wp_placeObject_bears hw₁ (compactionActive_of_idle hidle) hf₁)
        (fun id h' hbears => ⟨h₁, values, _, hw₁, hbefore, .inr rfl, hbears⟩)
        fun _ _ hends => hends.after hbefore
    | _ =>
      rw [incrementalCompactionActive, hphase] at hactive
      cases hactive
  · exact wp_mono (wp_placeObject_bears hw (by simpa using hinactive) hf)
      (fun id h' hbears => ⟨h, _, _, hw, evolves_refl hw.toSound hf.fields, .inl ⟨rfl, rfl⟩, hbears⟩)
      fun _ _ hends => hends

/-- A collection after a birth throws out of generations only. -/
theorem wp_collectAfterAllocation_evolves {id : ObjectId} (hw : h.Wf)
    (hid : h.Valid (.object id)) :
    wp (collectAfterAllocation id)
      (fun id' h' => h.Evolves h' [.object id] [.object id'] ∧ h'.Wf)
      (fun _ h' => h'.Exhausted ∨ h'.Oversized) h := by
  have hcells : ∀ value ∈ [Value.object id], h.Valid value := List.forall_mem_singleton.mpr hid
  unfold collectAfterAllocation
  rw [wp_bind, wp_get]
  refine wp_ite (fun _ => ?_) fun _ => ⟨evolves_refl hw.toSound hcells, hw⟩
  rw [wp_bind, collectWithExtraRoots]
  refine wp_mono (wp_and (wp_collectImpl_evolves hw hcells) (wp_collectImpl_spent hw hcells))
    (fun cells' h' hpost => ?_) fun _ _ he => he.2
  obtain ⟨⟨hw', -, hafter⟩, -⟩ := hpost
  obtain ⟨id', rfl⟩ : ∃ id', cells' = [.object id'] := hafter.singleton
  exact ⟨hafter, hw'⟩

theorem wp_allocateDescriptor_born {descriptor : Except HeapError Descriptor} (hw : h.Wf)
    (hf : ∀ d, descriptor = .ok d → h.Fresh d.val) :
    wp (allocateDescriptor descriptor)
      (fun id h' => ∃ d : Descriptor, descriptor = .ok d ∧ h.Born h' id d.val)
      (fun _ h' => h.Ends h') h := by
  unfold allocateDescriptor
  refine wp_query_bind (fun d hd => ?_) fun _ _ => ends_refl hw
  rw [wp_bind]
  refine wp_mono (wp_allocateObject_bears hw (hf d hd)) (fun id h₂ hpost => ?_) fun _ _ he => he
  obtain ⟨h₁, values, p₁, hw₁, hbefore, hcarried, hbears⟩ := hpost
  obtain ⟨slot, o, hr, -⟩ := hbears.object
  refine wp_mono (wp_collectAfterAllocation_evolves hbears.wf (valid_object.mpr ⟨slot, o, hr⟩))
    (fun id' h' hafter => ?_) fun _ _ hspent => .inr hspent
  exact ⟨d, hd, h₁, h₂, id, values, p₁, hw₁, hbefore, hcarried, hbears, hafter⟩

theorem wp_collectBeforeAllocation_evolves {operands : List Value} (hw : h.Wf)
    (hoperands : ∀ v ∈ operands, h.Valid v) :
    wp (collectBeforeAllocation operands)
      (fun operands' h' => h'.Wf ∧ h.Evolves h' operands operands') (fun _ h' => h.Ends h') h := by
  unfold collectBeforeAllocation
  rw [wp_bind, wp_get]
  refine wp_ite (fun _ => ?_) fun _ => ⟨hw, evolves_refl hw.toSound hoperands⟩
  rw [collectWithExtraRoots]
  exact wp_mono (wp_collectImpl_evolves hw hoperands) (fun _ _ hpost => ⟨hpost.1, hpost.2.2⟩)
    fun _ _ he => he

/-- A collection before, the construction, a collection after. -/
theorem wp_allocate_born {operands : List Value}
    {descriptor : List Value → Except HeapError Descriptor} (hw : h.Wf)
    (hoperands : ∀ v ∈ operands, h.Valid v)
    (hd : ∀ operands', operands'.length = operands.length → ∀ d, descriptor operands' = .ok d →
      BuiltFrom operands' d.val) :
    wp (do
      let operands ← collectBeforeAllocation operands
      allocateDescriptor (descriptor operands))
      (fun id h' => ∃ (h₀ : Heap) (operands' : List Value) (d : Descriptor), h₀.Wf ∧
        h.Evolves h₀ operands operands' ∧ descriptor operands' = .ok d ∧ h₀.Born h' id d.val)
      (fun _ h' => h.Ends h') h := by
  rw [wp_bind]
  refine wp_mono (wp_collectBeforeAllocation_evolves hw hoperands) (fun operands' h₀ hpost => ?_)
    fun _ _ he => he
  obtain ⟨hw₀, hbefore⟩ := hpost
  refine wp_mono (wp_allocateDescriptor_born hw₀ fun d hd' =>
      (hd operands' hbefore.length_eq d hd').fresh hbefore.valid)
    (fun id h' hborn => ?_) fun _ _ hends => hends.after hbefore
  obtain ⟨d, hd', hborn⟩ := hborn
  exact ⟨h₀, operands', d, hw₀, hbefore, hd', hborn⟩

end Evolution

end Heap

end LanguageRuntime.Gc
