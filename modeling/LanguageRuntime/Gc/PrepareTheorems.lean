import LanguageRuntime.Gc.SweepTheorems

/-!
# The start of incremental compaction

The sweep is a relocation that moves nothing. Its tables fit the heap, so the phase starts from
a heap that keeps the representation invariant.
-/

namespace LanguageRuntime.Gc

open LanguageRuntime LanguageRuntime.Library

theorem Payload.forward_some (p : Payload) : p.forward some = p := by
  have hvalue : ∀ value : Value, (value.mapObject fun id => id) = value := by
    intro value
    cases value <;> rfl
  have hid : (fun id : ObjectId => (some id).getD id) = fun id => id := rfl
  rw [forward, hid, mapReferenceFields_id]
  cases p with
  | weakRef target => cases target <;> rfl
  | ephemeron key value valueIsRef =>
    cases key with
    | object id =>
      simp only [forwardWeakTarget, forwardEphemeron, Option.getD_some, hvalue, ite_self]
    | _ => rfl
  | _ => rfl

namespace Heap

/-! ## The swept heap -/

/-- A marked object keeps its identifier. -/
def liveIds (h : Heap) (slot : ℕ) : Option ObjectId :=
  if (h.objectAt slot).any Object.marked then some (h.currentId slot) else none

section Swept

variable {h : Heap} {slot : ℕ} {o o' : Object} {id id' : ObjectId} {roots : List Value}

theorem liveIds_eq_some : h.liveIds slot = some id ↔
    id = h.currentId slot ∧ ∃ o, h.objectAt slot = some o ∧ o.marked = true := by
  rw [liveIds]
  cases ho : h.objectAt slot with
  | none => simp
  | some o =>
    rw [Option.any_some]
    cases hmarked : o.marked with
    | true =>
      rw [if_pos rfl, Option.some.injEq]
      exact ⟨fun heq => ⟨heq.symm, o, rfl, hmarked⟩, fun hand => hand.1.symm⟩
    | false =>
      rw [if_neg Bool.false_ne_true]
      refine ⟨nofun, ?_⟩
      rintro ⟨-, o', heq, hmarked'⟩
      cases heq
      rw [hmarked] at hmarked'
      exact nomatch hmarked'

theorem liveIds_of_marked (ho : h.objectAt slot = some o) (hmarked : o.marked = true) :
    h.liveIds slot = some (h.currentId slot) := liveIds_eq_some.mpr ⟨rfl, o, ho, hmarked⟩

theorem forwardBy_liveIds (hst : h.Storage) (hc : h.incrementalCompactionActive = false) :
    h.forwardBy h.liveIds = h.liveId := by
  funext id
  cases hr : h.resolve id with
  | error e => rw [forwardBy, liveId, hr]
  | ok found =>
    obtain ⟨slot, o⟩ := found
    obtain ⟨hlookup, rfl⟩ := lookup_of_resolve hc hr
    rw [forwardBy_of_resolve hr, liveId_of_resolve hr, liveIds, objectAt_of_lookup hlookup,
      Option.any_some, hst.currentId_of_lookup hlookup]

/-- What names a marked object is live. -/
theorem isSome_liveId (hlive : h.NamesLive .major id) : (h.liveId id).isSome = true := by
  obtain ⟨slot, o, hr, hmarked⟩ := hlive
  have hmarked' : o.marked = true := hmarked
  rw [liveId_of_resolve hr, if_pos hmarked']
  rfl

theorem namesLive_of_liveId (hid : h.liveId id = some id') : h.NamesLive .major id := by
  unfold liveId at hid
  split at hid
  · next slot o hr =>
    split at hid
    · next hmarked => exact ⟨slot, o, hr, hmarked⟩
    · exact nomatch hid
  · exact nomatch hid

/-- Filtering by the live identifiers forwards them. -/
theorem filter_liveId (h : Heap) (ids : List ObjectId) :
    ids.filter (fun id => (h.liveId id).isSome) = ids.filterMap h.liveId := by
  rw [← List.filterMap_eq_filter]
  refine List.filterMap_congr fun id _ => ?_
  have hgetD := getD_liveId h id
  cases hlive : h.liveId id with
  | none => simp [Option.guard, hlive]
  | some id' =>
    rw [hlive, Option.getD_some] at hgetD
    simp [Option.guard, hlive, hgetD]

theorem filter_internTable (hst : h.Storage) (hc : h.incrementalCompactionActive = false) :
    h.internTable.filter (fun entry => (h.liveId entry.canonical).isSome) =
      h.forwardInternTable h.liveIds := by
  rw [forwardInternTable, forwardBy_liveIds hst hc, ← List.filterMap_eq_filter]
  refine List.filterMap_congr fun entry _ => ?_
  have hgetD := getD_liveId h entry.canonical
  cases hlive : h.liveId entry.canonical with
  | none => simp [Option.guard, hlive]
  | some id' =>
    rw [hlive, Option.getD_some] at hgetD
    simp [Option.guard, hlive, hgetD]

theorem width_objectAt_swept (ho' : h.swept.objectAt slot = some o') :
    ∃ o, h.objectAt slot = some o ∧ o.marked = true ∧ o'.width = o.width ∧
      o'.isOld = o.isOld := by
  obtain ⟨o, ho, hmarked, rfl⟩ := objectAt_swept_eq_some.mp ho'
  exact ⟨o, ho, hmarked, Object.width_forward _ o, rfl⟩

theorem Storage.swept (hst : h.Storage) : h.swept.Storage := by
  refine ⟨length_swept h ▸ hst.size, hst.lengths.trans (length_swept h).symm, ?_, ?_, ?_⟩
  · intro slot o' ho'
    obtain ⟨o, ho, -, hwidth, -⟩ := width_objectAt_swept ho'
    rw [hwidth, length_swept]
    exact hst.inside slot o ho
  · intro slot₁ slot₂ o₁' o₂' hlt ho₁' ho₂'
    obtain ⟨o₁, ho₁, -, hwidth, -⟩ := width_objectAt_swept ho₁'
    obtain ⟨o₂, ho₂, -⟩ := width_objectAt_swept ho₂'
    rw [hwidth]
    exact hst.disjoint slot₁ slot₂ o₁ o₂ hlt ho₁ ho₂
  · intro slot o' ho'
    obtain ⟨o, ho, -⟩ := width_objectAt_swept ho'
    exact hst.named slot o ho

theorem unmarked_swept (h : Heap) : h.swept.Unmarked := by
  intro slot o' ho'
  obtain ⟨o, -, -, rfl⟩ := objectAt_swept_eq_some.mp ho'
  rfl

/-- The sweep is a relocation that keeps the marked objects where they are. -/
theorem relocates_swept (hst : h.Storage) (hc : h.incrementalCompactionActive = false)
    (hm : h.Marked .major roots) : h.Relocates h.swept h.liveIds where
  target slot o id' ho hid' := by
    obtain ⟨rfl, o₁, ho₁, hmarked⟩ := liveIds_eq_some.mp hid'
    rw [ho] at ho₁
    cases ho₁
    have ho' := objectAt_swept_eq_some.mpr ⟨o, ho, hmarked, rfl⟩
    refine ⟨_, hst.swept.lookup_currentId ho', ?_⟩
    rw [forwardBy_liveIds hst hc]
    rfl
  origin slot' o' ho' := by
    obtain ⟨o, ho, hmarked, -⟩ := objectAt_swept_eq_some.mp ho'
    refine ⟨slot', o, _, ho, liveIds_of_marked ho hmarked, ?_⟩
    rw [hst.currentId_eq ho]
  ordered slot₁ slot₂ o₁ o₂ id₁ id₂ ho₁ ho₂ hid₁ hid₂ _ _ hlt := by
    rw [(liveIds_eq_some.mp hid₁).1, (liveIds_eq_some.mp hid₂).1, hst.currentId_eq ho₁,
      hst.currentId_eq ho₂]
    exact hlt
  closed slot o ho hsome := by
    obtain ⟨id', hid'⟩ := Option.isSome_iff_exists.mp hsome
    obtain ⟨-, o₁, ho₁, hmarked⟩ := liveIds_eq_some.mp hid'
    rw [ho] at ho₁
    cases ho₁
    have hlive : o.countsAsLive .major = true := hmarked
    rw [forwardBy_liveIds hst hc]
    refine ⟨fun id hid => isSome_liveId (hm.strong slot o ho hlive id hid), ?_⟩
    intro key value hp hkey
    obtain ⟨key', hkey'⟩ := Option.isSome_iff_exists.mp hkey
    exact isSome_liveId (hm.ephemeron slot o key value ho hlive hp (namesLive_of_liveId hkey'))

theorem forwardRoot_liveIds (hst : h.Storage) (hc : h.incrementalCompactionActive = false)
    (value : Value) : h.forwardRoot h.liveIds value = value := by
  rw [forwardRoot, forwardBy_liveIds hst hc]
  cases value with
  | object id => rw [Value.mapObject_object, getD_liveId]
  | _ => rfl

/-- The sweep keeps the remembered objects it does not free. -/
theorem Remembers.swept (hr : h.Remembers) (hst : h.Storage)
    (hc : h.incrementalCompactionActive = false) : h.swept.Remembers where
  nodup := hr.nodup.filter _
  old id hid := by
    obtain ⟨hmem, hlive⟩ := List.mem_filter.mp hid
    obtain ⟨o, ho, hold⟩ := hr.old id hmem
    obtain ⟨id', hid'⟩ := Option.isSome_iff_exists.mp hlive
    obtain ⟨slot, o₁, hres, hmarked⟩ := namesLive_of_liveId hid'
    rw [resolve_of_lookup ho] at hres
    cases hres
    have ho' := objectAt_swept_eq_some.mpr ⟨o, objectAt_of_lookup ho, hmarked, rfl⟩
    have hlookup := hst.swept.lookup_currentId ho'
    have hid : h.swept.currentId id.slot = id := hst.currentId_of_lookup ho
    rw [hid] at hlookup
    exact ⟨_, hlookup, hold⟩
  complete slot o' ho' hold id hid hyoung := by
    obtain ⟨o, ho, hmarked, rfl⟩ := objectAt_swept_eq_some.mp ho'
    have hmem : .object id ∈ o.payload.referenceFields := by
      have hfields : (o.forward h.liveId).payload.referenceFields = o.payload.referenceFields := by
        rw [Object.payload_forward, Payload.referenceFields_forward]
        refine List.map_id'' (fun value => ?_) _
        cases value with
        | object id => rw [Value.mapObject_object, getD_liveId]
        | _ => rfl
      rw [← hfields]
      exact hid
    have hyoung' : h.NamesYoung id := by
      obtain ⟨slot₁, o₁', hres, hy⟩ := hyoung
      have hc' : h.swept.incrementalCompactionActive = false := hc
      obtain ⟨hlookup, rfl⟩ := lookup_of_resolve hc' hres
      obtain ⟨hnamed, hgeneration, hobject⟩ := lookup_eq_some.mp hlookup
      obtain ⟨o₁, ho₁, -, rfl⟩ := objectAt_swept_eq_some.mp hobject
      exact ⟨id.slot, o₁, resolve_of_lookup (lookup_eq_some.mpr ⟨hnamed, hgeneration, ho₁⟩), hy⟩
    have hin := hr.complete slot o ho hold id hmem hyoung'
    refine List.mem_filter.mpr ⟨hin, ?_⟩
    show (h.liveId (h.currentId slot)).isSome = true
    rw [liveId_of_resolve (hst.resolve_currentId ho), if_pos hmarked]
    rfl

theorem Sound.swept (hs : h.Sound) (hc : h.incrementalCompactionActive = false)
    (hm : h.Marked .major (h.traceCollectionRoots [])) : h.swept.Sound := by
  have hst := hs.storage
  have hrel := relocates_swept hst hc hm
  have hvalid : ∀ value ∈ h.traceCollectionRoots [], h.swept.Valid value := by
    intro value hvalue
    have hforwarded : h.swept.Valid (h.forwardRoot h.liveIds value) := by
      refine hrel.valid fun id heq => ?_
      rw [forwardBy_liveIds hst hc]
      exact isSome_liveId (hm.roots id (heq ▸ hvalue))
    rwa [forwardRoot_liveIds hst hc] at hforwarded
  refine hs.relocates hrel hst.swept ?_ ?_ (hs.remembers.swept hst hc) ?_ ?_
    (filter_internTable hst hc)
  · intro value hvalue
    have hcell : value ∈ h.rootCells := hvalue
    exact hvalid value (by simp [Heap.traceCollectionRoots, hcell])
  · intro root hroot
    have hhandle : root ∈ h.handleRoots := hroot
    refine hvalid root.slot ?_
    simp only [Heap.traceCollectionRoots, List.mem_append, List.mem_map]
    exact .inl (.inr ⟨root, hhandle, rfl⟩)
  · rw [forwardBy_liveIds hst hc]
    exact filter_liveId h h.weakRefs
  · rw [forwardBy_liveIds hst hc]
    exact filter_liveId h h.ephemerons

end Swept

/-! ## The tables of the phase -/

section Prepared

variable {h : Heap} {planned : CompactionPlan} {slot : ℕ} {o o' : Object} {id : ObjectId}

theorem shadowWidth_prepared (h : Heap) (planned : CompactionPlan) :
    (h.preparedTables planned).shadowWidth = h.survivorWidth .major := by
  funext slot
  show (h.swept.objectAt slot).elim 0 Object.width = _
  rw [objectAt_swept, survivorWidth]
  cases h.objectAt slot with
  | none => rfl
  | some o =>
    have hsurvives : o.survives .major = o.marked := rfl
    simp only [Option.bind_some, keepMarked, hsurvives]
    cases o.marked with
    | true => exact Object.width_forward _ o
    | false => rfl

theorem not_done_prepared (e : IncrementalCompactionEntry) :
    ¬(h.preparedTables planned).Done e := nofun

theorem slotOf_prepared (e : IncrementalCompactionEntry) :
    (h.preparedTables planned).slotOf e = e.sourceSlot := if_neg (not_done_prepared e)

theorem getD_forwarding_prepared (slot : ℕ) :
    (h.preparedTables planned).forwarding.getD slot none = none := getD_replicate_default _ _ _

theorem forwarded_prepared (id : ObjectId) : (h.preparedTables planned).forwarded id = none := by
  rw [IncrementalCompaction.forwarded, getD_forwarding_prepared, ite_self]

theorem currentOf_prepared (id : ObjectId) : (h.preparedTables planned).currentOf id = id := by
  rw [IncrementalCompaction.currentOf, forwarded_prepared]
  rfl

/-- The phase forwards nothing yet. -/
theorem updates_prepared (hc : h.incrementalCompactionActive = false) :
    Updates Eq h.swept (h.prepared planned) where
  objects slot := by
    show Option.Rel Eq (h.swept.objectAt slot) (h.swept.objectAt slot)
    cases h.swept.objectAt slot with
    | none => exact .none
    | some o => exact .some rfl
  length := rfl
  generations := rfl
  forwarded := by
    have hc' : h.swept.incrementalCompactionActive = false := hc
    rw [forwardedId_of_not_compacting hc']
    funext id
    exact forwarded_prepared id

/-- A current identifier is the source identifier of its object. -/
theorem PlannedUpTo.sourceOf_eq (hp : h.PlannedUpTo h.objects.length planned) (hst : h.Storage)
    (hid : h.swept.Current id) : (h.preparedTables planned).sourceOf id = id := by
  obtain ⟨o', ho'⟩ := hid
  obtain ⟨-, hgeneration, hobject⟩ := lookup_eq_some.mp ho'
  obtain ⟨o, ho, hmarked, -⟩ := width_objectAt_swept hobject
  obtain ⟨e, he, hslot⟩ := hp.covers id.slot o (lt_length_of_objectAt ho) ho hmarked
  obtain ⟨-, -, -, -, hid, -⟩ := hp.entries e he
  have hsource : e.sourceId = id := by
    have hgeneration' : h.generationAt id.slot = id.generation := hgeneration
    rw [hid, hslot, hst.currentId_eq ho, hgeneration']
  exact if_pos ((hp.sourceIds id.slot id).mpr ⟨e, he, hslot, hsource⟩)

theorem mem_filter_liveId {ids : List ObjectId} (hst : h.Storage)
    (hc : h.incrementalCompactionActive = false) (hp : h.PlannedUpTo h.objects.length planned)
    (hid : id ∈ ids.filter fun id => (h.liveId id).isSome) : ∃ e ∈ planned.plan, e.sourceId = id := by
  obtain ⟨id', hid'⟩ := Option.isSome_iff_exists.mp (List.mem_filter.mp hid).2
  obtain ⟨slot, o, hres, hmarked⟩ := namesLive_of_liveId hid'
  obtain ⟨hlookup, rfl⟩ := lookup_of_resolve hc hres
  have ho := objectAt_of_lookup hlookup
  obtain ⟨e, he, hslot⟩ := hp.covers id.slot o (lt_length_of_objectAt ho) ho hmarked
  obtain ⟨-, -, -, -, hsource, -⟩ := hp.entries e he
  refine ⟨e, he, ?_⟩
  rw [hsource, hslot, hst.currentId_of_lookup hlookup]

/-- The tables of the phase fit the heap it starts from. -/
theorem PlannedUpTo.layout (hp : h.PlannedUpTo h.objects.length planned) (hs : h.Sound)
    (hs' : h.swept.Sound) (hc : h.incrementalCompactionActive = false) :
    (h.preparedTables planned).Layout (h.prepared planned) := by
  have hst := hs.storage
  have hlength := length_swept h
  have hwidths := shadowWidth_prepared h planned
  refine ⟨Nat.zero_le _, ?_, rfl, ?_, hwidths ▸ hst.disjoint_survivors, ?_, hp.sources, ?_, ?_,
    hp.sourceIds, ?_, fun e _ hdone => absurd hdone (not_done_prepared e), fun _ _ => rfl, ?_,
    fun e _ hdone => absurd hdone (not_done_prepared e), ?_, ?_, ?_, ?_, ?_⟩
  · exact List.length_replicate
  · exact hst.lengths.trans hlength.symm
  · intro slot hne
    rw [hwidths] at hne ⊢
    obtain ⟨o, ho, -, hwidth⟩ := survivorWidth_ne_zero hne
    show slot + _ ≤ h.swept.objects.length
    rw [← hwidth, hlength]
    exact hst.inside slot o ho
  · intro e he
    obtain ⟨o, ho, hmarked, hwidth, hsource, hslides, hdestination, hgeneration⟩ := hp.entries e he
    have hid := hst.currentId_eq ho
    refine ⟨⟨_, objectAt_swept_eq_some.mpr ⟨o, ho, hmarked, rfl⟩, ?_⟩, hsource.trans hid, ?_, ?_,
      hdestination, hgeneration⟩
    · rw [hwidth]
      exact Object.width_forward _ o
    · rw [hsource, hid]
      exact hst.named _ o ho
    · rw [hwidths]
      exact hslides
  · intro slot o' ho'
    obtain ⟨o, ho, hmarked, -⟩ := width_objectAt_swept ho'
    exact hp.covers slot o (lt_length_of_objectAt ho) ho hmarked
  · intro slot id
    rw [getD_forwarding_prepared]
    exact ⟨nofun, fun ⟨e, _, hdone, _⟩ => absurd hdone (not_done_prepared e)⟩
  · intro e he
    obtain ⟨o, ho, hmarked, -⟩ := hp.entries e he
    obtain ⟨o', ho'⟩ : ∃ o', h.swept.objectAt e.sourceSlot = some o' :=
      ⟨_, objectAt_swept_eq_some.mpr ⟨o, ho, hmarked, rfl⟩⟩
    rw [slotOf_prepared]
    refine ⟨o', o', ho', ho', ?_, unmarked_swept h _ _ ho'⟩
    -- every field of a swept object holds a source identifier
    show o'.payload = o'.payload.forward fun id => some ((h.preparedTables planned).sourceOf id)
    refine (Payload.forward_some _).symm.trans (Payload.forward_congr fun id hid => ?_)
    have hc' : h.swept.incrementalCompactionActive = false := hc
    have hresolves := valid_object.mp (hs'.fields _ _ ho' _ hid)
    rw [hp.sourceOf_eq hst (hresolves.current hc')]
  · intro slot o' ho'
    obtain ⟨o, ho, hmarked, -⟩ := width_objectAt_swept ho'
    obtain ⟨e, he, hslot⟩ := hp.covers slot o (lt_length_of_objectAt ho) ho hmarked
    exact ⟨e, he, (slotOf_prepared e).trans hslot⟩
  · show h.swept.weakRefs = h.swept.weakRefs.map _
    exact (List.map_id'' currentOf_prepared _).symm
  · show h.swept.ephemerons = h.swept.ephemerons.map _
    exact (List.map_id'' currentOf_prepared _).symm
  · show h.swept.internTable = h.swept.internTable.map _
    refine (List.map_id'' (fun entry => ?_) _).symm
    rw [currentOf_prepared]
  · rintro id (hid | hid | hid)
    · exact mem_filter_liveId hst hc hp hid
    · exact mem_filter_liveId hst hc hp hid
    · obtain ⟨entry, hentry, rfl⟩ := List.mem_map.mp hid
      have hlive := (List.mem_filter.mp hentry).2
      have hmem : entry.canonical ∈ [entry.canonical].filter fun id => (h.liveId id).isSome := by
        simpa using hlive
      exact mem_filter_liveId hst hc hp hmem

/-- The heap at the start of the phase keeps the invariant. -/
theorem PlannedUpTo.wf (hp : h.PlannedUpTo h.objects.length planned) (hs : h.Sound)
    (hc : h.incrementalCompactionActive = false)
    (hm : h.Marked .major (h.traceCollectionRoots [])) : (h.prepared planned).Wf := by
  have hs' := hs.swept hc hm
  have hu : Updates Eq h.swept (h.prepared planned) := updates_prepared hc
  have hk : Updates Object.Kindred h.swept (h.prepared planned) :=
    hu.mono fun o o' heq => heq ▸ .refl o
  refine ⟨hs'.frame hu hs'.cells hs'.handles ⟨hs'.remembers.nodup, ?_, ?_⟩ rfl rfl rfl, ?_⟩
  · intro id hid
    obtain ⟨o, ho, hold⟩ := hs'.remembers.old id hid
    exact ⟨o, ho, hold⟩
  · intro slot o ho hold id hid hyoung
    exact hs'.remembers.complete slot o ho hold id hid (hk.namesYoung hyoung)
  · exact ⟨unmarked_swept h, hp.layout hs hs' hc⟩

end Prepared

/-! ## Starting the phase -/

/-- `h'` is what opening the compaction phase makes of `h`: `marked` is `h` with the live objects
marked. -/
structure Prepares (h h' marked : Heap) : Prop where
  same : h.SameButMarks marked
  live : ∀ slot, (∃ o, marked.objectAt slot = some o ∧ o.countsAsLive .major = true) ↔
    h.Live .major (h.traceCollectionRoots []) slot
  prepared : ∃ planned, marked.PlannedUpTo marked.objects.length planned ∧
    h' = marked.prepared planned
  wf : h'.Wf

section Start

variable {h h' marked : Heap}

theorem Prepares.active (hp : h.Prepares h' marked) : h'.incrementalCompactionActive = true := by
  obtain ⟨planned, -, rfl⟩ := hp.prepared
  rfl

theorem Prepares.length (hp : h.Prepares h' marked) : h'.objects.length = h.objects.length := by
  obtain ⟨planned, -, rfl⟩ := hp.prepared
  exact (length_swept marked).trans hp.same.updates.length

/-- Preparing a heap whose live objects are marked opens the phase, or runs out of generations
before it has changed anything. -/
theorem SameButMarks.wp_prepare (hm : h.SameButMarks marked) (hs : h.Sound)
    (hc : marked.incrementalCompactionActive = false)
    (hlive : ∀ slot, (∃ o, marked.objectAt slot = some o ∧ o.countsAsLive .major = true) ↔
      h.Live .major (h.traceCollectionRoots []) slot) :
    wp prepareIncrementalCompactionFromMarked (fun _ h' => h.Prepares h' marked)
      (fun e h' => h' = marked ∧ e = generationExhausted ∧
        h.RunsOut (h.Live .major (h.traceCollectionRoots []))) marked := by
  have hs₁ := hm.sound hs
  have hnone : ∀ value ∈ ([] : List Value), h.Valid value := nofun
  have hmarked := hm.marked hs (hs.traceCollectionRoots hnone) hlive
  rw [← hm.traceCollectionRoots] at hmarked
  refine wp_mono (wp_prepareIncrementalCompactionFromMarked hs₁ fun planned hp => ?_)
    (fun _ h' hpost => ?_) fun e h' he => ?_
  · exact (hp.wf hs₁ hc hmarked).toSound.validateAfterCollection_eq_ok nofun
  · obtain ⟨planned, hp, rfl⟩ := hpost
    exact ⟨hm, hlive, ⟨planned, hp, rfl⟩, hp.wf hs₁ hc hmarked⟩
  · obtain ⟨rfl, he, hruns⟩ := he
    have hset : (fun slot => ∃ o, h'.objectAt slot = some o ∧ o.countsAsLive .major = true) =
        h.Live .major (h.traceCollectionRoots []) := by
      funext slot
      exact propext (hlive slot)
    rw [hset] at hruns
    exact ⟨rfl, he, hm.runsOut hruns⟩

/-- Starting the phase opens it, refuses, or runs out of generations. -/
theorem wp_startIncrementalCompaction (hw : h.Wf) :
    wp startIncrementalCompaction
      (fun _ h' => ∃ marked, h.Prepares h' marked ∧ marked.incrementalCompactionActive = false)
      (fun e h' => h' = h ∨ h.SameButMarks h' ∧ h'.phase = .idle ∧ e = generationExhausted ∧
        h.RunsOut (h.Live .major (h.traceCollectionRoots []))) h := by
  unfold startIncrementalCompaction
  rw [wp_bind, wp_get]
  refine wp_ite (fun _ => .inl rfl) fun hc => ?_
  refine wp_ite (fun _ => .inl rfl) fun hm => ?_
  rw [Bool.not_eq_true] at hc hm
  have hs := hw.toSound
  have hidle := idle_of_inactive hm hc
  refine wp_query_ok hs.validateBeforeCollection_eq_ok ?_
  unfold prepareIncrementalCompaction
  rw [wp_bind]
  refine wp_mono (wp_markCollectionRoots hs (hw.unmarked hidle) nofun)
    (fun _ h₁ hpost => ?_) fun _ _ he => he.elim
  obtain ⟨hm₁, hlive⟩ := hpost
  have hc₁ : h₁.incrementalCompactionActive = false :=
    compactionActive_of_idle (hm₁.phase.trans hidle)
  refine wp_mono (hm₁.same.wp_prepare hs hc₁ hlive) (fun _ h' hp => ⟨h₁, hp, hc₁⟩) fun e h' he => ?_
  obtain ⟨rfl, he⟩ := he
  exact .inr ⟨hm₁.same, hm₁.phase.trans hidle, he⟩

/-- The hand-over from marking to compaction opens the phase, or runs out of generations. -/
theorem wp_finishIncrementalMarkingToIncrementalCompaction_marking (hw : h.Wf)
    {worklist : List ObjectId} (hphase : h.phase = .marking worklist) :
    wp finishIncrementalMarkingToIncrementalCompaction
      (fun _ h' => ∃ marked, h.Prepares h' marked ∧ marked.phase = .idle)
      (fun e h' => h.SameButMarks h' ∧ h'.phase = .idle ∧ e = generationExhausted ∧
        h.RunsOut (h.Live .major (h.traceCollectionRoots []))) h := by
  unfold finishIncrementalMarkingToIncrementalCompaction
  rw [wp_bind]
  refine wp_mono (wp_finishIncrementalMarkingLiveness hw hphase nofun) (fun _ h₁ hpost => ?_)
    fun _ _ he => he.elim
  obtain ⟨hm, hphase₁, hlive⟩ := hpost
  have hc₁ := compactionActive_of_marking hphase₁
  rw [wp_bind, wp_modify]
  show wp _ _ _ (h₁.withPhase .idle)
  have hm' : h.SameButMarks (h₁.withPhase .idle) := hm.trans (same_withPhase .idle hc₁ rfl)
  refine wp_mono (hm'.wp_prepare hw.toSound rfl hlive) (fun _ h' hp => ⟨_, hp, rfl⟩)
    fun e h' he => ?_
  obtain ⟨rfl, he⟩ := he
  exact ⟨hm', rfl, he⟩

/-- The hand-over from marking to compaction opens the phase, refuses, or runs out of
generations. -/
theorem wp_finishIncrementalMarkingToIncrementalCompaction (hw : h.Wf) :
    wp finishIncrementalMarkingToIncrementalCompaction
      (fun _ h' => ∃ marked, h.Prepares h' marked ∧ marked.incrementalCompactionActive = false)
      (fun e h' => h' = h ∨ h.SameButMarks h' ∧ h'.phase = .idle ∧ e = generationExhausted ∧
        h.RunsOut (h.Live .major (h.traceCollectionRoots []))) h := by
  cases hphase : h.phase with
  | marking worklist =>
    exact wp_mono (wp_finishIncrementalMarkingToIncrementalCompaction_marking hw hphase)
      (fun _ h' ⟨marked, hp, hidle⟩ => ⟨marked, hp, compactionActive_of_idle hidle⟩)
      fun e h' he => .inr he
  | _ =>
    unfold finishIncrementalMarkingToIncrementalCompaction finishIncrementalMarkingLiveness
    rw [wp_bind, wp_bind, wp_get]
    refine wp_ite (fun _ => .inl rfl) fun hnot => ?_
    exact absurd (by rw [incrementalMarkingActive, hphase]; rfl) hnot

end Start

end Heap

end LanguageRuntime.Gc
