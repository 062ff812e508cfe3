import LanguageRuntime.Gc.AllocateTheorems
import LanguageRuntime.Library.Runs

/-!
# Runs of the heap

Every public operation keeps the representation invariant in every phase, as long as the slot
vector stays within the slot numbers, no slot uses up its generations and no store goes through a
stale identifier of an old object.
-/

namespace LanguageRuntime.Gc

open LanguageRuntime LanguageRuntime.Library

/-- The operation would make the write barrier remember a stale identifier. -/
def Operation.StoresStale (h : Heap) : Operation → Prop
  | setField id _ value => h.RemembersStale id value
  | refArraySet id _ value => h.RemembersStale id value
  | recordSet id _ value => h.RemembersStale id value
  | ephemeronSetValue id value => h.RemembersStale id value
  | mapSet id key value =>
    (∃ entry, h.findMapEntry id key = .ok (some entry)) ∧ h.RemembersStale id value
  | _ => False

namespace Heap

/-! ## One operation -/

section Operation

variable {h : Heap} {op : Operation}

/-- What holds after an operation that keeps the invariant or outgrows the slot numbers. -/
def Keeps (h : Heap) {α : Type} (m : HeapM α) : Prop :=
  wp m (fun _ h' => h'.Wf ∨ h'.Oversized) (fun e h' => Throws e h' ∨ h'.Oversized) h

theorem keeps_of_wp {α : Type} {m : HeapM α} (hm : wp m (fun _ h' => h'.Wf) Throws h) :
    h.Keeps m :=
  wp_mono hm (fun _ _ hw => .inl hw) fun _ _ he => .inl he

theorem keeps_map {α β : Type} {m : HeapM α} (f : α → β) (hm : h.Keeps m) :
    h.Keeps (f <$> m) := by
  unfold Keeps
  rw [wp_map]
  exact hm

theorem keeps_return {α β : Type} {m : HeapM α} {b : β} (hm : h.Keeps m) :
    h.Keeps (do let _ ← m; return b) := by
  unfold Keeps
  rw [wp_bind]
  exact hm

/-- Finishing a marking cycle, which throws outside the phase. -/
theorem wp_finishIncrementalMarking {cells : List Value} (hw : h.Wf)
    (hcells : ∀ value ∈ cells, h.Valid value) :
    wp (finishIncrementalMarkingImpl cells) (fun _ h' => h'.Wf) Throws h := by
  cases hphase : h.phase with
  | marking worklist =>
    exact wp_mono (wp_finishIncrementalMarkingImpl hw hphase hcells) (fun _ _ ⟨_, hc, _⟩ => hc.wf)
      fun _ _ he => .inl he.1.2.2
  | _ =>
    unfold finishIncrementalMarkingImpl finishIncrementalMarkingLiveness
    rw [wp_bind, wp_bind, wp_get]
    refine wp_ite (fun _ => .inl hw) fun hnot => ?_
    exact absurd (by rw [incrementalMarkingActive, hphase]; rfl) hnot

/-- A step of a compaction, which throws outside the phase. -/
theorem wp_incrementalCompactStep {cells : List Value} (hw : h.Wf) (budget : ℕ)
    (hcells : ∀ value ∈ cells, h.Valid value) :
    wp (incrementalCompactStepImpl budget cells) (fun _ h' => h'.Wf) Throws h := by
  cases hphase : h.phase with
  | compacting c =>
    exact wp_mono (wp_incrementalCompactStepImpl hw hphase hcells) (fun _ _ hsteps => hsteps.wf)
      fun _ _ he => he.elim
  | _ =>
    unfold incrementalCompactStepImpl
    rw [wp_bind, wp_get]
    refine wp_ite (fun _ => .inl hw) fun hnot => ?_
    exact absurd (by rw [incrementalCompactionActive, hphase]; rfl) hnot

/-- Finishing a compaction, which throws outside the phase. -/
theorem wp_finishIncrementalCompaction {cells : List Value} (hw : h.Wf)
    (hcells : ∀ value ∈ cells, h.Valid value) :
    wp (finishIncrementalCompactionImpl cells) (fun _ h' => h'.Wf) Throws h := by
  cases hphase : h.phase with
  | compacting c =>
    exact wp_mono (wp_finishIncrementalCompactionImpl hw hphase hcells)
      (fun _ _ hpost => hpost.1.wf) fun _ _ he => he.elim
  | _ =>
    unfold finishIncrementalCompactionImpl
    rw [wp_bind, wp_get, hphase]
    exact .inl hw

/-- A collection that runs out of generations before a compaction opens leaves its marks. -/
theorem throws_of_sameButMarks {h' : Heap} {e : HeapError} {live : ℕ → Prop} (hw : h.Wf)
    (he : h' = h ∨ h.SameButMarks h' ∧ h'.phase = .idle ∧ e = generationExhausted ∧
      h.RunsOut live) : Throws e h' := by
  rcases he with rfl | ⟨hm, hidle, he, hruns⟩
  · exact .inl hw
  · exact .inr ⟨⟨he, hm.exhausted hruns⟩, hm.sound hw.toSound, hidle⟩

/-- An operation whose operands resolve keeps the invariant in every phase. -/
theorem keeps_run (hw : h.Wf) (hoperands : ∀ v ∈ op.arguments, h.Valid v)
    (hstale : ¬op.StoresStale h) : h.Keeps op.run := by
  have hnone : ∀ value ∈ ([] : List Value), h.Valid value := nofun
  cases op with
  | allocatePair left right =>
    exact keeps_map _ (keeps_of_wp (wp_allocatePair hw (hoperands left (by simp [Operation.arguments]))
      (hoperands right (by simp [Operation.arguments]))))
  | allocateScalarArray length init => exact keeps_map _ (keeps_of_wp (wp_allocateScalarArray hw init))
  | allocateRefArray length init =>
    exact keeps_map _ (keeps_of_wp (wp_allocateRefArray hw
      (hoperands init (by simp [Operation.arguments]))))
  | allocateString bytes => exact keeps_map _ (keeps_of_wp (wp_allocateString hw bytes))
  | allocateStringConcat left right =>
    exact keeps_map _ (keeps_of_wp (wp_allocateStringConcat hw
      (hoperands left (by simp [Operation.arguments]))
      (hoperands right (by simp [Operation.arguments]))))
  | allocateStringSubstring source lo hi =>
    exact keeps_map _ (keeps_of_wp (wp_allocateStringSubstring hw
      (hoperands source (by simp [Operation.arguments]))))
  | internString source =>
    exact keeps_map _ (keeps_of_wp (wp_internString hw
      (hoperands source (by simp [Operation.arguments]))))
  | allocateClosure l fn captures captureMap =>
    exact keeps_map _ (keeps_of_wp (wp_allocateClosure hw hoperands))
  | allocateMap l keyIsRef valueIsRef =>
    exact keeps_map _ (keeps_of_wp (wp_allocateMap hw keyIsRef valueIsRef))
  | allocateWeak target =>
    exact keeps_map _ (keeps_of_wp (wp_allocateWeak hw
      (hoperands target (by simp [Operation.arguments]))))
  | allocateEphemeron key value valueIsRef =>
    exact keeps_map _ (keeps_of_wp (wp_allocateEphemeron hw
      (hoperands key (by simp [Operation.arguments]))
      (hoperands value (by simp [Operation.arguments]))))
  | allocateBuilder => exact keeps_map _ (keeps_of_wp (wp_allocateBuilder hw))
  | builderToString builder =>
    exact keeps_map _ (keeps_of_wp (wp_builderToString hw
      (hoperands builder (by simp [Operation.arguments]))))
  | allocateRecord l fields refMap =>
    exact keeps_map _ (keeps_of_wp (wp_allocateRecord hw hoperands))
  | allocateVariant l c fields caseRefMaps =>
    exact keeps_map _ (keeps_of_wp (wp_allocateVariant hw hoperands))
  | setField id field value =>
    exact keeps_return (keeps_of_wp (wp_storePairField hw field
      (hoperands value (by simp [Operation.arguments])) hstale (afterStore_wf _ _ _)))
  | arraySet id index value =>
    exact keeps_return (keeps_of_wp (wp_arraySet hw value (afterStore_wf _ _ _)))
  | refArraySet id index value =>
    exact keeps_return (keeps_of_wp (wp_storeRefArrayElement hw
      (hoperands value (by simp [Operation.arguments])) hstale (afterStore_wf _ _ _)))
  | mapSet id key value =>
    exact keeps_return (wp_storeMapEntry hw fun entry hfound hremembers =>
      hstale ⟨⟨entry, hfound⟩, hremembers⟩)
  | recordSet id index value =>
    exact keeps_return (keeps_of_wp (wp_storeRecordField hw hstale (afterStore_wf _ _ _)))
  | ephemeronSetValue id value =>
    exact keeps_return (keeps_of_wp (wp_storeEphemeronValue hw hstale (afterStore_wf _ _ _)))
  | builderAppend id source =>
    exact keeps_return (wp_builderAppend hw (hoperands _ (by simp [Operation.arguments]))
      (hoperands source (by simp [Operation.arguments])))
  | builderClear id =>
    exact keeps_return (keeps_of_wp (wp_mono (wp_builderClear hw
      (hoperands _ (by simp [Operation.arguments])))
      (fun _ _ hpost => let ⟨_, _, _, _, _, _, _, _, hstored⟩ := hpost; hstored.1)
      fun _ _ he => .inl (he ▸ hw)))
  | makeHandle key value =>
    exact keeps_return (keeps_of_wp (wp_mono (wp_makeHandle hw
      (hoperands value (by simp [Operation.arguments]))) (fun _ _ hw' => hw')
      fun _ _ he => he.elim))
  | releaseHandle key =>
    exact keeps_return (keeps_of_wp (wp_mono (wp_releaseHandle hw) (fun _ _ hw' => hw')
      fun _ _ he => he.elim))
  | moveHandle source destination =>
    exact keeps_return (keeps_of_wp (wp_mono (wp_moveHandle hw) (fun _ _ hw' => hw')
      fun _ _ he => he.elim))
  | setStressConfig config => exact .inl (hw.setStressConfig config)
  | collect =>
    exact keeps_return (keeps_of_wp (wp_mono (wp_collectImpl hw hnone)
      (fun _ _ hrests => hrests.wf) fun _ _ he => he))
  | collectMinor =>
    exact keeps_return (keeps_of_wp (wp_mono (wp_collectImpl hw hnone)
      (fun _ _ hrests => hrests.wf) fun _ _ he => he))
  | startIncrementalMarking =>
    exact keeps_return (keeps_of_wp (wp_mono (wp_startIncrementalMarking hw)
      (fun _ _ hpost => hpost.1) fun _ _ he => .inl (he ▸ hw)))
  | incrementalMarkStep budget =>
    exact keeps_return (keeps_of_wp (wp_mono (wp_incrementalMarkStep budget hw)
      (fun _ _ hpost => hpost.1) fun _ _ he => .inl (he ▸ hw)))
  | finishIncrementalMarking =>
    exact keeps_return (keeps_of_wp (wp_finishIncrementalMarking hw hnone))
  | finishIncrementalMarkingToIncrementalCompaction =>
    exact keeps_return (keeps_of_wp (wp_mono (wp_finishIncrementalMarkingToIncrementalCompaction hw)
      (fun _ _ ⟨_, hp, _⟩ => hp.wf) fun _ _ he => throws_of_sameButMarks hw he))
  | startIncrementalCompaction =>
    exact keeps_return (keeps_of_wp (wp_mono (wp_startIncrementalCompaction hw)
      (fun _ _ ⟨_, hp, _⟩ => hp.wf) fun _ _ he => throws_of_sameButMarks hw he))
  | incrementalCompactStep budget =>
    exact keeps_return (keeps_of_wp (wp_incrementalCompactStep hw budget hnone))
  | finishIncrementalCompaction =>
    exact keeps_return (keeps_of_wp (wp_finishIncrementalCompaction hw hnone))

end Operation

end Heap

/-! ## Runs -/

namespace Action

/-- The identifiers an action passes to the heap. -/
def operands : Action → List Value
  | setRoots cells => cells
  | call op => op.arguments

/-- The action would make the write barrier remember a stale identifier. -/
def StoresStale (h : Heap) : Action → Prop
  | setRoots _ => False
  | call op => op.StoresStale h

end Action

namespace Heap

/-- The slot vector stays within the slot numbers, and no slot has used up its generations. -/
structure Within (h : Heap) : Prop where
  slots : h.objects.length ≤ slotNumbers
  generations : ¬h.Exhausted

theorem exhausted_iff {h : Heap} : h.Exhausted ↔ kMaxGeneration ∈ h.generations := by
  constructor
  · rintro ⟨slot, hslot⟩
    have hlt : slot < h.generations.length := by
      by_contra hno
      rw [generationAt, List.getD_eq_default _ _ (Nat.not_lt.mp hno)] at hslot
      cases hslot
    rw [generationAt, List.getD_eq_getElem _ _ hlt] at hslot
    exact hslot ▸ List.getElem_mem hlt
  · intro hmem
    obtain ⟨slot, hlt, hslot⟩ := List.getElem_of_mem hmem
    exact ⟨slot, (List.getD_eq_getElem _ _ hlt).trans hslot⟩

instance (h : Heap) (value : Value) : Decidable (h.Valid value) :=
  match hv : h.validateValue value with
  | .ok () => .isTrue (validateValue_eq_ok.mp hv)
  | .error _ => .isFalse fun hvalid =>
    nomatch hv.symm.trans (validateValue_eq_ok.mpr hvalid)

instance (h : Heap) : Decidable h.Within :=
  decidable_of_iff (h.objects.length ≤ slotNumbers ∧ kMaxGeneration ∉ h.generations)
    ⟨fun ⟨hslots, hnot⟩ => ⟨hslots, fun hex => hnot (exhausted_iff.mp hex)⟩,
      fun ⟨hslots, hnot⟩ => ⟨hslots, fun hmem => hnot (exhausted_iff.mpr hmem)⟩⟩

/-- Every identifier the action passes resolves, no store goes through a stale identifier of an
old object, and the action leaves a heap within its limits. -/
structure Regular (h : Heap) (action : Action) : Prop where
  operands : ∀ v ∈ action.operands, h.Valid v
  fresh : ¬action.StoresStale h
  within : Within (action.after h)

section Run

variable {h : Heap} {action : Action} {actions : List Action}

/-- A heap without objects that lists none keeps the invariant. -/
theorem Wf.of_no_objects (hnone : ∀ slot, h.objectAt slot = none)
    (hsize : h.objects.length ≤ slotNumbers) (hlengths : h.generations.length = h.objects.length)
    (hcells : h.rootCells = []) (hhandles : h.handleRoots = []) (hremembered : h.rememberedSet = [])
    (hweakRefs : h.weakRefs = []) (hinternTable : h.internTable = [])
    (hephemerons : h.ephemerons = []) (hidle : h.phase = .idle) : h.Wf := by
  have hno : ∀ slot o, h.objectAt slot ≠ some o := fun slot o ho => nomatch (hnone slot).symm.trans ho
  have hregistry : ∀ kind, h.IsRegistry kind [] := by
    refine fun kind => ⟨.nil, fun id => ⟨nofun, ?_⟩⟩
    rintro ⟨o, ho, -⟩
    exact absurd (objectAt_of_lookup ho) (hno id.slot o)
  exact {
    storage := ⟨hsize, hlengths, fun slot o ho => absurd ho (hno slot o),
      fun slot _ o _ _ ho => absurd ho (hno slot o), fun slot o ho => absurd ho (hno slot o)⟩
    fields := fun slot o ho => absurd ho (hno slot o)
    cells := by
      rw [hcells]
      exact nofun
    handles := by
      rw [hhandles]
      exact nofun
    remembers := ⟨hremembered ▸ .nil, hremembered ▸ nofun, fun slot o ho => absurd ho (hno slot o)⟩
    weakRefs := hweakRefs ▸ hregistry .weakRef
    ephemerons := hephemerons ▸ hregistry .ephemeron
    interns := ⟨hinternTable ▸ .nil, hinternTable ▸ nofun, hinternTable ▸ nofun⟩
    maps := fun slot o _ ho => absurd ho (hno slot o)
    phase := by
      rw [PhaseSound, hidle]
      exact fun slot o ho => absurd ho (hno slot o) }

theorem empty_wf (config : StressConfig) : (Heap.empty config).Wf :=
  .of_no_objects (fun _ => rfl) (Nat.zero_le _) rfl rfl rfl rfl rfl rfl rfl rfl

theorem run_concat (h : Heap) (actions : List Action) (action : Action) :
    h.run (actions ++ [action]) = action.after (h.run actions) := by
  rw [Heap.run, Heap.run, List.foldl_append]
  rfl

/-- A heap within its limits that an operation has left behind keeps the invariant. -/
theorem Within.wf {e : HeapError} (hin : h.Within) (he : Throws e h ∨ h.Oversized) : h.Wf := by
  rcases he with (hw | ⟨hstops, -, -⟩) | hover
  · exact hw
  · exact absurd hstops.2 hin.generations
  · exact absurd hin.slots (Nat.not_le.mpr hover.slots)

/-- What an action leaves behind, from what it leaves behind in either outcome. -/
theorem after_of_wp {I : Heap → Prop} (hm : wp action.step (fun _ => I) (fun _ => I) h) :
    I (action.after h) := by
  unfold wp at hm
  unfold Action.after
  cases hstep : action.step h with
  | ok id h' =>
    rw [hstep] at hm
    exact hm
  | error e h' =>
    rw [hstep] at hm
    exact hm

/-- A regular action keeps the invariant, whether it returns or throws. -/
theorem Wf.after (hw : h.Wf) (hr : h.Regular action) : (action.after h).Wf := by
  cases action with
  | setRoots cells => exact hw.setRoots hr.operands hw.handles
  | call op =>
    have hkeeps : wp (Action.call op).step (fun _ h' => h'.Wf ∨ h'.Oversized)
        (fun e h' => Throws e h' ∨ h'.Oversized) h := keeps_run hw hr.operands hr.fresh
    have hstep : wp (Action.call op).step (fun _ h' => h'.Within → h'.Wf)
        (fun _ h' => h'.Within → h'.Wf) h := by
      refine wp_mono hkeeps (fun _ h' hq hin => ?_) fun e h' he hin => hin.wf he
      exact hq.elim (fun hw' => hw') fun hover => absurd hin.slots (Nat.not_le.mpr hover.slots)
    have hafter := after_of_wp hstep
    exact hafter hr.within

/-- Every heap of a regular run keeps the invariant. -/
theorem Wf.run (hw : h.Wf) (hm : Meets (fun h action => action.after h) Regular h actions) :
    (h.run actions).Wf :=
  hm.invariant (fun _ _ hw hr => hw.after hr) hw

end Run

end Heap

/-! ## A heap that outgrows the slot numbers

A map that grows in place extends the slot vector without the test of the slot limit that
allocation and relocation make. -/

namespace Heap

/-- An operation is called with current identifiers; a root may also be one that is forwarded. -/
def CalledCurrent (h : Heap) : Action → Prop
  | .setRoots cells => ∀ v ∈ cells, h.Valid v
  | .call op => ∀ v ∈ op.arguments, ∀ id, v = .object id → h.Current id

instance (h : Heap) (id : ObjectId) : Decidable (h.Current id) :=
  decidable_of_iff ((h.lookup id).isSome = true) Option.isSome_iff_exists

instance decidableNamesCurrent (h : Heap) (v : Value) :
    Decidable (∀ id, v = .object id → h.Current id) :=
  match v with
  | .object id => decidable_of_iff (h.Current id)
    ⟨fun hc _ heq => Value.object.inj heq ▸ hc, fun hall => hall id rfl⟩
  | .nil | .int64 _ | .bool _ => .isTrue fun _ heq => by cases heq

instance (h : Heap) (action : Action) : Decidable (h.CalledCurrent action) :=
  match action with
  | .setRoots cells => inferInstanceAs (Decidable (∀ v ∈ cells, h.Valid v))
  | .call op => inferInstanceAs (Decidable (∀ v ∈ op.arguments, ∀ id, v = .object id → h.Current id))

section Outgrow

variable {h : Heap} {n entries required : ℕ} {d : Descriptor} {Q : ObjectId → Heap → Prop}
  {E : HeapError → Heap → Prop}

/-- A scalar array over the first `n` slots, and a map with scalar entries over the rest. -/
structure Spans (h : Heap) (n entries : ℕ) : Prop where
  array : ∃ o, h.objectAt 0 = some o ∧ o.width = n
  map : ∃ o m, h.objectAt n = some o ∧ o.isOld = false ∧ o.payload = .map m ∧
    m.keyIsRef = false ∧ m.valueIsRef = false ∧ m.entries.length = entries ∧
    (entries = 0 → m.lookupIndex = [])
  size : h.objects.length = n + (1 + 2 * entries)
  lengths : h.generations.length = h.objects.length
  generations : ∀ slot, h.generationAt slot = if slot = 0 ∨ slot = n then 1 else 0
  settled : h.incrementalCompactionActive = false
  quiet : h.stressConfig = .quiet
  roots : h.traceCollectionRoots [] = []
  unlisted : h.weakRefs = []

/-- Such a heap has no free run. -/
theorem Spans.findFreeStorageRun (hs : h.Spans n entries) (required : ℕ) :
    h.findFreeStorageRun required = none := by
  obtain ⟨a, ha, hn⟩ := hs.array
  obtain ⟨o, m, ho, -, hp, -, -, hentries, -⟩ := hs.map
  have hwidth : o.width = 1 + 2 * entries := by
    rw [Object.width, hp, ← hentries]
    rfl
  have hsize := hs.size
  suffices hall : ∀ fuel, h.freeRunLoop required fuel 0 0 0 = none from hall _
  intro fuel
  cases fuel with
  | zero => rfl
  | succ fuel =>
    rw [freeRunLoop, if_pos (by omega), ha]
    dsimp only
    rw [hn, Nat.zero_add]
    cases fuel with
    | zero => rfl
    | succ fuel =>
      rw [freeRunLoop, if_pos (by omega), ho]
      dsimp only
      cases fuel with
      | zero => rfl
      | succ fuel => rw [freeRunLoop, if_neg (by omega)]

/-- Allocation in a heap without a free run extends the slot vector. -/
theorem wp_allocateDescriptor_extends (hfree : h.findFreeStorageRun d.val.storageSlotCount = none)
    (hsettled : h.incrementalCompactionActive = false) (hquiet : h.stressConfig = .quiet)
    (hroom : ¬slotsLeft h.objects.length < d.val.storageSlotCount)
    (hgeneration : h.generationAt h.objects.length = 0)
    (hQ : Q (makeObjectId h.objects.length 1) ((h.resize
      (h.objects.length + d.val.storageSlotCount)).installObject d h.objects.length 1)) :
    wp (allocateDescriptor (.ok d)) Q E h := by
  have hd : (Except.ok d : Except HeapError Descriptor) = .ok d := rfl
  unfold allocateDescriptor
  refine wp_query_ok hd ?_
  rw [wp_bind]
  unfold allocateObject
  rw [wp_bind, wp_get, hsettled]
  show wp (placeObject d.val) _ _ h
  unfold placeObject
  refine wp_query_ok (validateDescriptorShape_of_shape d.property) ?_
  unfold reserveStorageRun
  rw [wp_bind, wp_bind, wp_get, hfree]
  dsimp only
  rw [if_neg hroom, wp_bind, wp_set, wp_pure]
  have hfirst : generationForNewBase
      ((h.resize (h.objects.length + d.val.storageSlotCount)).generationAt h.objects.length) =
        .ok 1 := by
    rw [generationAt_resize, hgeneration]
    rfl
  refine wp_query_ok hfirst ?_
  rw [wp_bind, wp_modify, wp_pure]
  unfold collectAfterAllocation
  rw [wp_bind, wp_get]
  refine wp_ite (fun hafter => ?_) fun _ => hQ
  have hstress : h.stressConfig.collectAfterEveryAllocation = true := hafter
  rw [hquiet] at hstress
  exact nomatch hstress

theorem wp_collectBeforeAllocation_quiet {operands : List Value} {Q : List Value → Heap → Prop}
    (hquiet : h.stressConfig = .quiet) (hQ : Q operands h) :
    wp (collectBeforeAllocation operands) Q E h := by
  unfold collectBeforeAllocation
  rw [wp_bind, wp_get, hquiet]
  exact hQ

theorem scalarArray_of_le (hn : n ≤ headerLimit) :
    Object.scalarArray n 0 = .ok ⟨.scalarArray (List.replicate n 0), rfl⟩ :=
  if_neg (Nat.not_lt.mpr hn)

/-- A scalar array over `n` slots. -/
def wideArray (n : ℕ) : Object :=
  (Heap.empty .quiet).newObject ⟨.scalarArray (List.replicate n 0), rfl⟩

theorem width_wideArray (hpos : 0 < n) : (wideArray n).width = n := by
  simp only [wideArray, Object.width, newObject, Payload.storageSlotCount, List.length_replicate]
  rw [if_neg (by omega)]

/-- The heap with the array alone. -/
def arrayHeap (n : ℕ) : Heap :=
  ((Heap.empty .quiet).resize n).installObject ⟨.scalarArray (List.replicate n 0), rfl⟩ 0 1

theorem after_allocateScalarArray (hpos : 0 < n) (hn : n ≤ headerLimit) :
    (Action.call (.allocateScalarArray n 0)).after (Heap.empty .quiet) = arrayHeap n := by
  have hwidth : (Payload.scalarArray (List.replicate n 0)).storageSlotCount = n := by
    simp only [Payload.storageSlotCount, List.length_replicate]
    rw [if_neg (by omega)]
  refine after_of_wp (I := fun h' => h' = arrayHeap n) ?_
  show wp (some <$> allocateScalarArray n 0) _ _ _
  unfold allocateScalarArray
  rw [wp_map, wp_bind, scalarArray_of_le hn]
  refine wp_collectBeforeAllocation_quiet rfl (wp_allocateDescriptor_extends rfl rfl rfl ?_ rfl ?_)
  · show ¬slotsLeft 0 < Payload.storageSlotCount _
    rw [hwidth, slotsLeft_eq (Nat.zero_le _)]
    simp only [headerLimit, slotNumbers] at hn ⊢
    omega
  · show Heap.installObject _ _ _ _ = arrayHeap n
    rw [hwidth, arrayHeap]
    show ((Heap.empty .quiet).resize (0 + n)).installObject _ _ _ = _
    rw [Nat.zero_add]
    rfl

theorem objectAt_arrayHeap (hpos : 0 < n) (slot : ℕ) :
    (arrayHeap n).objectAt slot = if slot = 0 then some (wideArray n) else none := by
  rw [arrayHeap, objectAt_installObject]
  · split
    · rfl
    · rw [objectAt_resize]
      rfl
  · rw [length_objects_resize]
    exact hpos.trans_le (le_max_right _ _)

theorem generationAt_arrayHeap (hpos : 0 < n) (slot : ℕ) :
    (arrayHeap n).generationAt slot = if slot = 0 then 1 else 0 := by
  rw [arrayHeap, generationAt_installObject]
  · split
    · rfl
    · rw [generationAt_resize]
      rfl
  · rw [length_generations_resize]
    exact hpos.trans_le (le_max_right _ _)

theorem length_arrayHeap (n : ℕ) : (arrayHeap n).objects.length = n := by
  have hlength := length_objects_resize (Heap.empty .quiet) n
  rw [arrayHeap, Heap.installObject]
  rw [List.length_set, hlength]
  exact Nat.max_eq_right (Nat.zero_le n)

theorem findFreeStorageRun_arrayHeap (hpos : 0 < n) (required : ℕ) :
    (arrayHeap n).findFreeStorageRun required = none := by
  have hsize := length_arrayHeap n
  suffices hall : ∀ fuel, (arrayHeap n).freeRunLoop required fuel 0 0 0 = none from hall _
  intro fuel
  cases fuel with
  | zero => rfl
  | succ fuel =>
    rw [freeRunLoop, if_pos (by omega), objectAt_arrayHeap hpos, if_pos rfl]
    dsimp only
    rw [width_wideArray hpos, Nat.zero_add]
    cases fuel with
    | zero => rfl
    | succ fuel => rw [freeRunLoop, if_neg (by omega)]

/-- An empty map of scalars. -/
def emptyMap : Descriptor := ⟨.map ⟨0, false, false, [], []⟩, rfl⟩

/-- The array and an empty map behind it. -/
theorem spans_start (hpos : 0 < n) (hn : n ≤ headerLimit) :
    let h := (Heap.empty .quiet).run [.call (.allocateScalarArray n 0),
      .call (.allocateMap 0 false false)]
    h.Spans n 0 ∧ h.phase = .idle := by
  let I := fun h : Heap => h.Spans n 0 ∧ h.phase = .idle
  show I ((Action.call (.allocateMap 0 false false)).after
    ((Action.call (.allocateScalarArray n 0)).after (Heap.empty .quiet)))
  rw [after_allocateScalarArray hpos hn]
  have hsize := length_arrayHeap n
  have hlimit : n < slotNumbers := by
    simp only [headerLimit, slotNumbers] at hn ⊢
    omega
  refine after_of_wp ?_
  show wp (some <$> allocateMap 0 false false) _ _ _
  unfold allocateMap
  rw [wp_map, wp_bind]
  refine wp_collectBeforeAllocation_quiet rfl (wp_allocateDescriptor_extends
    (d := emptyMap) (findFreeStorageRun_arrayHeap hpos _) rfl rfl ?_ ?_ ?_)
  · rw [hsize, slotsLeft_eq hlimit.le]
    show ¬slotNumbers - n < 1
    omega
  · rw [hsize, generationAt_arrayHeap hpos, if_neg (by omega)]
  · refine ⟨?_, rfl⟩
    show Spans _ n 0
    rw [hsize]
    show (((arrayHeap n).resize (n + 1)).installObject emptyMap n 1).Spans n 0
    have hlength : ((arrayHeap n).resize (n + 1)).objects.length = n + 1 := by
      rw [length_objects_resize, hsize]
      omega
    have hlength' : ((arrayHeap n).resize (n + 1)).generations.length = n + 1 := by
      rw [length_generations_resize, arrayHeap, Heap.installObject, List.length_set,
        length_generations_resize]
      show max (max 0 n) (n + 1) = n + 1
      omega
    have hobjects : ∀ slot, (((arrayHeap n).resize (n + 1)).installObject emptyMap n 1).objectAt slot =
        if slot = n then some (((arrayHeap n).resize (n + 1)).newObject emptyMap)
        else ((arrayHeap n).resize (n + 1)).objectAt slot :=
      objectAt_installObject (by omega)
    have hgenerations : ∀ slot,
        (((arrayHeap n).resize (n + 1)).installObject emptyMap n 1).generationAt slot =
          if slot = n then 1 else ((arrayHeap n).resize (n + 1)).generationAt slot :=
      generationAt_installObject (by omega)
    refine ⟨⟨wideArray n, ?_, width_wideArray hpos⟩,
      ⟨((arrayHeap n).resize (n + 1)).newObject emptyMap, ⟨0, false, false, [], []⟩, ?_, rfl, rfl, rfl,
        rfl, rfl, fun _ => rfl⟩, ?_, ?_, ?_, rfl, rfl, rfl, rfl⟩
    · rw [hobjects, if_neg (by omega), objectAt_resize, objectAt_arrayHeap hpos, if_pos rfl]
    · rw [hobjects, if_pos rfl]
    · rw [Heap.installObject, List.length_set, hlength]
    · rw [Heap.installObject, List.length_set, List.length_set, hlength, hlength']
    · intro slot
      rw [hgenerations, generationAt_resize, generationAt_arrayHeap hpos]
      split
      · next heq => rw [if_pos (.inr heq)]
      · next hne =>
        by_cases hzero : slot = 0
        · rw [if_pos hzero, if_pos (.inl hzero)]
        · rw [if_neg hzero, if_neg fun hor => hor.elim hzero hne]

theorem Spans.current_array (hs : h.Spans n entries) : h.Current ⟨0, 1⟩ := by
  obtain ⟨o, ho, -⟩ := hs.array
  have hgeneration : h.generationAt 0 = 1 := by rw [hs.generations, if_pos (.inl rfl)]
  exact ⟨o, lookup_eq_some.mpr ⟨one_ne_zero, hgeneration, ho⟩⟩

theorem Spans.current_map (hs : h.Spans n entries) : h.Current ⟨n, 1⟩ := by
  obtain ⟨o, m, ho, -⟩ := hs.map
  have hgeneration : h.generationAt n = 1 := by rw [hs.generations, if_pos (.inr rfl)]
  exact ⟨o, lookup_eq_some.mpr ⟨one_ne_zero, hgeneration, ho⟩⟩

theorem Spans.resolve_map (hs : h.Spans n entries) : ∃ o m, h.resolve ⟨n, 1⟩ = .ok (n, o) ∧
    o.isOld = false ∧ o.payload = .map m ∧ m.keyIsRef = false ∧ m.valueIsRef = false ∧
      m.entries.length = entries ∧ (entries = 0 → m.lookupIndex = []) := by
  obtain ⟨o, m, ho, hyoung, hp, hrest⟩ := hs.map
  obtain ⟨o', ho'⟩ := hs.current_map
  have hsame := objectAt_of_lookup ho'
  rw [ho] at hsame
  cases hsame
  exact ⟨o, m, resolve_of_lookup ho', hyoung, hp, hrest⟩

/-- More slots behind the map change nothing else. -/
theorem resolve_resize (hsettled : h.incrementalCompactionActive = false) {size slot : ℕ}
    {id : ObjectId} {o : Object} (hr : h.resolve id = .ok (slot, o)) :
    (h.resize size).resolve id = .ok (slot, o) := by
  obtain ⟨ho, rfl⟩ := lookup_of_resolve hsettled hr
  exact resolve_of_lookup ((lookup_resize h size id).trans ho)

/-- The first entry of an empty map of scalars. -/
theorem insert_first (h : Heap) (l : ℕ) : ∃ index,
    MapPayload.insert ⟨l, false, false, [], []⟩ h (.int64 0) (.int64 0) =
      .ok ⟨l, false, false, [⟨.int64 0, .int64 0⟩], index⟩ :=
  ⟨_, rfl⟩

/-- The map with its first entry, and room for it behind the map. -/
theorem Spans.setPayload (hs : h.Spans n 0) {o : Object} (l : ℕ) (index : List ℕ)
    (ho : h.objectAt n = some o) (hyoung : o.isOld = false) :
    let h' := (h.resize (n + 3)).setPayload n
      ⟨.map ⟨l, false, false, [⟨.int64 0, .int64 0⟩], index⟩, rfl⟩
    h'.Spans n 1 ∧ h'.phase = h.phase := by
  obtain ⟨a, ha, hwidth⟩ := hs.array
  have hpos : 0 < n := hwidth ▸ a.width_pos
  have hsize := hs.size
  have hlength : (h.resize (n + 3)).objects.length = n + 3 := by
    rw [length_objects_resize, hsize]
    omega
  have hlength' : (h.resize (n + 3)).generations.length = n + 3 := by
    rw [length_generations_resize, hs.lengths, hsize]
    omega
  have ho₁ : (h.resize (n + 3)).objectAt n = some o := by rwa [objectAt_resize]
  have hput : (h.resize (n + 3)).setPayload n
      ⟨.map ⟨l, false, false, [⟨.int64 0, .int64 0⟩], index⟩, rfl⟩ =
        (h.resize (n + 3)).putObject n (o.withPayload
          ⟨.map ⟨l, false, false, [⟨.int64 0, .int64 0⟩], index⟩, rfl⟩) := by
    rw [Heap.setPayload, ho₁]
  intro h'
  have hobjects : ∀ slot, h'.objectAt slot = if slot = n then some (o.withPayload
      ⟨.map ⟨l, false, false, [⟨.int64 0, .int64 0⟩], index⟩, rfl⟩) else h.objectAt slot := by
    intro slot
    show ((h.resize (n + 3)).setPayload n _).objectAt slot = _
    rw [hput, objectAt_putObject _ (by omega), objectAt_resize]
  have hrest : h' = (h.resize (n + 3)).putObject n (o.withPayload
      ⟨.map ⟨l, false, false, [⟨.int64 0, .int64 0⟩], index⟩, rfl⟩) := hput
  clear_value h'
  refine ⟨⟨⟨a, ?_, hwidth⟩, ⟨_, _, (hobjects n).trans (if_pos rfl), hyoung, rfl, rfl, rfl, rfl,
    fun hno => by cases hno⟩, ?_, ?_, ?_, ?_, ?_, ?_, ?_⟩, ?_⟩
  · rw [hobjects, if_neg (by omega), ha]
  · rw [hrest, length_objects_putObject, hlength]
  · rw [hrest, length_objects_putObject, hlength]
    exact hlength'
  · intro slot
    rw [hrest, generationAt_putObject, generationAt_resize, hs.generations]
  · rw [hrest]
    exact hs.settled
  · rw [hrest]
    exact hs.quiet
  · rw [hrest]
    exact hs.roots
  · rw [hrest]
    exact hs.unlisted
  · rw [hrest]
    rfl

/-- Publishing the first entry, in a heap with room for it behind the map. -/
theorem Spans.wp_publishMapEntry (hs : h.Spans n 0) :
    wp (publishMapEntry ⟨n, 1⟩ none (.int64 0) (.int64 0))
      (fun _ h' => h'.Spans n 1 ∧ h'.phase = h.phase)
      (fun _ h' => h'.Spans n 1 ∧ h'.phase = h.phase) (h.resize (n + 3)) := by
  obtain ⟨o, m, hr, hyoung, hp, hkey, hvalue, hentries, hindex⟩ := hs.resolve_map
  have hsettled := hs.settled
  obtain ⟨l, keyIsRef, valueIsRef, mapEntries, index⟩ := m
  cases hkey
  cases hvalue
  cases List.length_eq_zero_iff.mp hentries
  cases hindex rfl
  have hr₁ : (h.resize (n + 3)).resolve ⟨n, 1⟩ = .ok (n, o) := resolve_resize hsettled hr
  have hmap := checkedMap_of_resolve hr₁ hp
  unfold publishMapEntry
  refine wp_query_ok hmap ?_
  refine wp_query_ok (a := .int64 0) rfl ?_
  refine wp_query_ok (a := .int64 0) rfl ?_
  -- a scalar passes both barriers
  have hgrey : ∀ {Q : Unit → Heap → Prop} {E : HeapError → Heap → Prop}, Q ⟨⟩ (h.resize (n + 3)) →
      wp (incrementalWriteBarrierBeforePublish ⟨n, 1⟩ (.int64 0)) Q E (h.resize (n + 3)) := by
    intro Q E hQ
    unfold incrementalWriteBarrierBeforePublish
    rw [wp_bind, wp_get]
    split
    · next heq => cases heq
    · exact hQ
  rw [wp_bind]
  refine hgrey ?_
  rw [wp_bind]
  refine hgrey ?_
  rw [wp_bind]
  unfold recordMapWriteBarrierIfNeeded
  refine wp_query_ok hr₁ ?_
  dsimp only
  rw [hyoung]
  show wp _ _ _ (h.resize (n + 3))
  refine wp_query_ok hmap ?_
  obtain ⟨index', hinsert⟩ := insert_first (h.resize (n + 3)) l
  refine wp_query_ok hinsert ?_
  refine wp_query_ok (validateDescriptorShape_of_shape (p := .map
    ⟨l, false, false, [⟨.int64 0, .int64 0⟩], index'⟩) rfl) ?_
  rw [wp_bind, wp_modify]
  have hdone := hs.setPayload l index' (objectAt_of_resolve hr) hyoung
  generalize hnext : (h.resize (n + 3)).setPayload n _ = h' at hdone ⊢
  have hsettled' := hdone.1.settled
  -- whatever the last checks find, the heap stays as it is
  refine wp_query_bind (fun _ _ => ?_) fun _ _ => hdone
  unfold mirrorIntoShadow
  rw [wp_bind, wp_bind, wp_get]
  split
  · next c hphase =>
    rw [incrementalCompactionActive, hphase] at hsettled'
    cases hsettled'
  · rw [wp_pure, wp_bind, wp_get]
    refine wp_query_bind (fun _ _ => ?_) fun _ _ => hdone
    rw [wp_query, yields_iff]
    exact ⟨fun _ _ => hdone, fun _ _ => hdone⟩

/-- Inserting a first entry grows the map in place, past any limit on the slot vector. -/
theorem Spans.wp_mapSet (hs : h.Spans n 0) :
    wp (storeMapEntry ⟨n, 1⟩ (.int64 0) (.int64 0))
      (fun _ h' => h'.Spans n 1 ∧ h'.phase = h.phase)
      (fun _ h' => h'.Spans n 1 ∧ h'.phase = h.phase) h := by
  obtain ⟨o, m, hr, hyoung, hp, hkey, hvalue, hentries, hindex⟩ := hs.resolve_map
  have hsettled := hs.settled
  have hsize := hs.size
  have hmap := checkedMap_of_resolve hr hp
  have hempty := List.length_eq_zero_iff.mp hentries
  have hwidth : o.width = 1 := by
    rw [Object.width, hp]
    show 1 + 2 * m.entries.length = 1
    rw [hentries]
  have hfind : h.findMapEntry ⟨n, 1⟩ (.int64 0) = .ok none := by
    unfold findMapEntry
    have hscalar : h.validateMapKey m (.int64 0) = .ok () := by
      unfold validateMapKey
      rw [hkey]
      rfl
    rw [hmap, ok_bind]
    dsimp only
    rw [hscalar, ok_bind, hindex rfl]
    rfl
  unfold storeMapEntry
  refine wp_query_ok hfind ?_
  refine wp_query_ok hmap ?_
  have hchecked : h.validateMapValue m (.int64 0) = .ok () := by
    unfold validateMapValue
    rw [hvalue]
    rfl
  refine wp_query_ok hchecked ?_
  show wp (prepareMapInsertion _ _ _ >>= _) _ _ h
  rw [wp_bind]
  unfold prepareMapInsertion finishActiveCompaction
  rw [wp_bind, wp_bind, wp_get, hsettled]
  show wp _ _ _ h
  have howner : asObject (([.object ⟨n, 1⟩, .int64 0, .int64 0] : List Value).getD 0 .nil) =
      .ok ⟨n, 1⟩ := rfl
  refine wp_query_ok howner ?_
  refine wp_query_ok hmap ?_
  refine wp_ite (fun hfull => ?_) fun _ => ?_
  · rw [hentries] at hfull
    exact absurd hfull (by decide)
  unfold ensureMapGrowthStorage
  refine wp_query_ok hmap ?_
  unfold ensureGrowthStorage
  rw [wp_bind, wp_get]
  have hfree : h.adjacentRunIsFree n o.width (o.width + 2) = true := by
    rw [adjacentRunIsFree, hwidth, hsize]
    have hnone : min (n + (1 + 2 * 0)) (n + (1 + 2)) - (n + 1) = 0 := by omega
    rw [hnone]
    rfl
  refine wp_ite (fun hno => ?_) fun _ => ?_
  · rw [hfree] at hno
    cases hno
  refine wp_ite (fun _ => ?_) fun hno => absurd (by omega) hno
  rw [wp_bind, wp_set, wp_pure, hwidth]
  refine wp_query_ok howner ?_
  exact hs.wp_publishMapEntry

/-! ### Past the limit -/

/-- An allocation behind the grown map. -/
theorem Spans.wp_allocate (hs : h.Spans headerLimit 1) {descriptor : Except HeapError Descriptor}
    {d : Descriptor} (hd : descriptor = .ok d) (hwidth : d.val.storageSlotCount = 1)
    (hQ : ∀ h' : Heap, h' = (h.resize (slotNumbers + 3)).installObject d (slotNumbers + 2) 1 →
      h'.lookup ⟨2, 1⟩ = none → Q ⟨2, 1⟩ h') :
    wp (allocateDescriptor descriptor) Q E h := by
  have hsize : h.objects.length = slotNumbers + 2 := hs.size
  have hlengths := hs.lengths
  rw [hd]
  refine wp_allocateDescriptor_extends (hs.findFreeStorageRun _) hs.settled hs.quiet ?_ ?_ ?_
  · rw [hsize, hwidth]
    decide
  · rw [hsize, hs.generations, if_neg (by decide)]
  · rw [hsize, hwidth]
    refine hQ _ rfl ?_
    have hbase : slotNumbers + 2 < (h.resize (slotNumbers + 3)).generations.length := by
      rw [length_generations_resize, hlengths, hsize]
      omega
    have hgeneration : ((h.resize (slotNumbers + 3)).installObject d (slotNumbers + 2) 1).generationAt 2 =
        if 2 = slotNumbers + 2 then 1 else (h.resize (slotNumbers + 3)).generationAt 2 :=
      generationAt_installObject hbase 2
    rw [if_neg (by decide), generationAt_resize, hs.generations, if_neg (by decide)] at hgeneration
    rw [lookup, if_neg]
    rintro ⟨-, hat⟩
    exact absurd (hgeneration.symm.trans hat) (by decide)

/-- The new weak reference is registered under an identifier that names no object. -/
theorem Spans.wp_allocateWeak (hs : h.Spans headerLimit 1) :
    wp (Action.call (.allocateWeak (.object ⟨0, 1⟩))).step
      (fun _ h' => ⟨2, 1⟩ ∈ h'.weakRefs ∧ h'.lookup ⟨2, 1⟩ = none)
      (fun _ h' => ⟨2, 1⟩ ∈ h'.weakRefs ∧ h'.lookup ⟨2, 1⟩ = none) h := by
  obtain ⟨o, ho⟩ := hs.current_array
  show wp (some <$> allocateWeak (.object ⟨0, 1⟩)) _ _ h
  unfold allocateWeak
  rw [wp_map]
  have htarget : Object.requireObjectReferenceValue (.object ⟨0, 1⟩) "weak reference target" =
      .ok ⟨0, 1⟩ := rfl
  refine wp_query_ok htarget ?_
  refine wp_query_ok (checkedSlot_eq_ok.mpr ⟨o, resolve_of_lookup ho⟩) ?_
  rw [wp_bind]
  refine wp_collectBeforeAllocation_quiet hs.quiet ?_
  have hd : Object.weakRef (([.object ⟨0, 1⟩] : List Value).getD 0 .nil) =
      .ok ⟨.weakRef (.object ⟨0, 1⟩), rfl⟩ := rfl
  refine hs.wp_allocate hd rfl fun h' heq hnone => ⟨?_, hnone⟩
  rw [heq]
  show ⟨2, 1⟩ ∈ insertInSlotOrder ObjectId.slot (slotNumbers + 2) ⟨2, 1⟩ h.weakRefs
  rw [hs.unlisted]
  exact List.mem_cons_self

theorem Spans.not_isRegistry (hs : h.Spans headerLimit 1) :
    ¬((Action.call (.allocateWeak (.object ⟨0, 1⟩))).after h).IsRegistry .weakRef
      ((Action.call (.allocateWeak (.object ⟨0, 1⟩))).after h).weakRefs := by
  have hlost := after_of_wp (I := fun h' => ⟨2, 1⟩ ∈ h'.weakRefs ∧ h'.lookup ⟨2, 1⟩ = none)
    hs.wp_allocateWeak
  intro hreg
  obtain ⟨o, ho, -⟩ := (hreg.mem ⟨2, 1⟩).mp hlost.1
  rw [hlost.2] at ho
  exact nomatch ho

/-- An array over `n` slots, a map behind it, and a first entry of the map. -/
def outgrowing (n : ℕ) : List Action :=
  [.call (.allocateScalarArray n 0), .call (.allocateMap 0 false false),
    .call (.mapSet ⟨n, 1⟩ (.int64 0) (.int64 0))]

theorem after_mapSet_spans (hs : h.Spans n 0) :
    let h' := (Action.call (.mapSet ⟨n, 1⟩ (.int64 0) (.int64 0))).after h
    h'.Spans n 1 ∧ h'.phase = h.phase := by
  refine after_of_wp (I := fun h' => h'.Spans n 1 ∧ h'.phase = h.phase) ?_
  show wp (storeMapEntry _ _ _ >>= _) _ _ h
  rw [wp_bind]
  exact hs.wp_mapSet

theorem spans_outgrowing (hpos : 0 < n) (hn : n ≤ headerLimit) :
    ((Heap.empty .quiet).run (outgrowing n)).Spans n 1 :=
  (after_mapSet_spans (spans_start hpos hn).1).1

theorem calledCurrent_outgrowing (hpos : 0 < n) (hn : n ≤ headerLimit) :
    Meets (fun h action => action.after h) CalledCurrent (Heap.empty .quiet) (outgrowing n) := by
  refine ⟨nofun, nofun, fun v hv id heq => ?_, trivial⟩
  subst heq
  have hid : id = ⟨n, 1⟩ := by simpa [Operation.arguments] using hv
  rw [hid]
  exact (spans_start hpos hn).1.current_map

theorem Spans.not_exhausted (hs : h.Spans n entries) : ¬h.Exhausted := by
  rintro ⟨slot, hslot⟩
  rw [hs.generations] at hslot
  split at hslot
  · exact absurd hslot (by decide)
  · exact absurd hslot (by decide)

/-- Up to the insertion the run stays within the limits. -/
theorem start_wf (hpos : 0 < n) (hn : n ≤ headerLimit) :
    ((Heap.empty .quiet).run [.call (.allocateScalarArray n 0),
      .call (.allocateMap 0 false false)]).Wf := by
  have hspans := (spans_start hpos hn).1
  have hsize := hspans.size
  have hlimit : n + 1 ≤ slotNumbers := by
    simp only [headerLimit, slotNumbers] at hn ⊢
    omega
  have harray : Within (arrayHeap n) := by
    refine ⟨(length_arrayHeap _).trans_le (by omega), ?_⟩
    rintro ⟨slot, hslot⟩
    rw [generationAt_arrayHeap hpos] at hslot
    split at hslot
    · exact absurd hslot (by decide)
    · exact absurd hslot (by decide)
  have hfirst : Regular (Heap.empty .quiet) (.call (.allocateScalarArray n 0)) := by
    refine ⟨(fun _ hno => by cases hno), fun hstale => hstale, ?_⟩
    rwa [after_allocateScalarArray hpos hn]
  have hsecond : Regular ((Action.call (.allocateScalarArray n 0)).after (Heap.empty .quiet))
      (.call (.allocateMap 0 false false)) :=
    ⟨(fun _ hno => by cases hno), fun hstale => hstale, hsize.trans_le hlimit, hspans.not_exhausted⟩
  exact (empty_wf .quiet).run ⟨hfirst, hsecond, trivial⟩

end Outgrow

/-! ## The representation invariant -/

/-- A store through a current identifier remembers a current one. -/
theorem CalledCurrent.regular {h : Heap} {action : Action} (hc : h.CalledCurrent action)
    (hin : (action.after h).Within) : h.Regular action := by
  refine ⟨?_, ?_, hin⟩
  · intro v hv
    cases action with
    | setRoots cells => exact hc v hv
    | call op => exact fun id heq => (hc v hv id heq).resolves
  · intro hstale
    cases action with
    | setRoots cells => exact hstale
    | call op =>
      cases op with
      | setField id field value => exact hstale.stale (hc _ List.mem_cons_self id rfl)
      | refArraySet id index value => exact hstale.stale (hc _ List.mem_cons_self id rfl)
      | recordSet id index value => exact hstale.stale (hc _ List.mem_cons_self id rfl)
      | ephemeronSetValue id value => exact hstale.stale (hc _ List.mem_cons_self id rfl)
      | mapSet id key value => exact hstale.2.stale (hc _ List.mem_cons_self id rfl)
      | _ => exact hstale

/-- From an empty heap, after any operations called with current identifiers, whatever their order
and the phase, the representation invariant holds, as long as the slot vector has stayed within
the slot numbers and no slot has used up its generations. -/
theorem representation_kept (config : StressConfig) (actions : List Action)
    (hcalls : Meets (fun h action => action.after h)
      (fun h action => h.CalledCurrent action ∧ (action.after h).Within) (Heap.empty config)
      actions) :
    ((Heap.empty config).run actions).Wf :=
  (empty_wf config).run (hcalls.mono fun _ _ hstep => hstep.1.regular hstep.2)

/-- A pair under a handle survives a collection that moves it. -/
theorem representation_kept_collect : ((Heap.empty .quiet).run [.call (.allocatePair .nil .nil),
    .call (.allocatePair .nil .nil), .setRoots [.object ⟨1, 1⟩], .call .collect]).Wf := by
  have hnil : ∀ h : Heap, h.CalledCurrent (.call (.allocatePair .nil .nil)) := by
    intro h v hv id heq
    subst heq
    exact absurd hv (by simp [Operation.arguments])
  refine representation_kept .quiet _ ⟨⟨hnil _, ?_⟩, ⟨hnil _, ?_⟩, ⟨?_, ?_⟩, ⟨nofun, ?_⟩, trivial⟩
  · decide +kernel
  · decide +kernel
  · intro v hv id heq
    subst heq
    cases List.mem_singleton.mp hv
    exact ⟨1, _, rfl⟩
  · decide +kernel
  · decide +kernel

/-- Once the slot vector has outgrown the slot numbers, an allocation is registered under an
identifier that names no object. -/
theorem representation_outgrown :
    let actions := outgrowing headerLimit ++ [.call (.allocateWeak (.object ⟨0, 1⟩))]
    let h := (Heap.empty .quiet).run actions
    Meets (fun h action => action.after h) CalledCurrent (Heap.empty .quiet) actions ∧
      ¬h.IsRegistry .weakRef h.weakRefs := by
  have hpos : 0 < headerLimit := by decide
  have hgrown := spans_outgrowing hpos le_rfl
  have hcalls := calledCurrent_outgrowing hpos le_rfl
  intro actions h
  have hrun : h = (Action.call (.allocateWeak (.object ⟨0, 1⟩))).after
      ((Heap.empty .quiet).run (outgrowing headerLimit)) := run_concat _ _ _
  refine ⟨meets_append.mpr ⟨hcalls, fun v hv id heq => ?_, trivial⟩, ?_⟩
  · subst heq
    have hid : id = ⟨0, 1⟩ := by simpa [Operation.arguments] using hv
    rw [hid]
    exact hgrown.current_array
  · rw [hrun]
    exact hgrown.not_isRegistry

end Heap

end LanguageRuntime.Gc
