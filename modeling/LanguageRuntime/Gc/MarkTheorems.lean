import LanguageRuntime.Gc.UpdateTheorems
import LanguageRuntime.Library.Closure

/-!
# Marking computes liveness

The live objects of a heap as a least closed set, and the proof that draining the worklist and
running the ephemeron fixpoint mark exactly them.
-/

namespace LanguageRuntime.Gc

open LanguageRuntime LanguageRuntime.Library

/-! ## Liveness -/

namespace Heap

/-- The object at `slot` has a strong reference to the one at `slot'`. -/
def StrongReference (h : Heap) (slot slot' : ℕ) : Prop :=
  ∃ o id o', h.objectAt slot = some o ∧ .object id ∈ o.payload.referenceFields ∧
    h.resolve id = .ok (slot', o')

/-- The object at `owner` is an ephemeron from the key at `key` to the value at `value`. -/
def EphemeronReference (h : Heap) (owner key value : ℕ) : Prop :=
  ∃ o keyId valueId keyObject valueObject, h.objectAt owner = some o ∧
    o.payload = .ephemeron (.object keyId) (.object valueId) true ∧
    h.resolve keyId = .ok (key, keyObject) ∧ h.resolve valueId = .ok (value, valueObject)

/-- What a collection takes for live to begin with: what a root refers to and, when it is a
minor one, every old object. -/
def Initial (h : Heap) (kind : CollectionKind) (roots : List Value) (slot : ℕ) : Prop :=
  (kind = .minor ∧ ∃ o, h.objectAt slot = some o ∧ o.isOld = true) ∨
    ∃ id o, .object id ∈ roots ∧ h.resolve id = .ok (slot, o)

/-- The slots of the live objects. -/
def Live (h : Heap) (kind : CollectionKind) (roots : List Value) : ℕ → Prop :=
  Reach (h.Initial kind roots) h.StrongReference h.EphemeronReference

/-- The identifier names an object that counts as live. -/
def NamesLive (h : Heap) (kind : CollectionKind) (id : ObjectId) : Prop :=
  ∃ slot o, h.resolve id = .ok (slot, o) ∧ o.countsAsLive kind = true

/-- The number of objects without a mark. -/
def unmarkedCount (h : Heap) : ℕ := h.objects.countP fun slot => slot.any fun o => !o.marked

end Heap

/-! ## Heaps that differ in their marks -/

/-- The same object up to its mark. -/
def Object.SameButMark (o o' : Object) : Prop := o' = { o with marked := o'.marked }

namespace Object.SameButMark

variable {o o' o'' : Object}

theorem refl (o : Object) : o.SameButMark o := rfl

theorem payload (h : o.SameButMark o') : o'.payload = o.payload := by rw [h]

theorem generation (h : o.SameButMark o') : o'.generation = o.generation := by rw [h]

theorem serial (h : o.SameButMark o') : o'.serial = o.serial := by rw [h]

theorem width (h : o.SameButMark o') : o'.width = o.width := by
  rw [Object.width, h.payload]
  rfl

theorem isOld (h : o.SameButMark o') : o'.isOld = o.isOld := by
  rw [Object.isOld, h.generation]
  rfl

theorem isYoung (h : o.SameButMark o') : o'.isYoung = o.isYoung := by
  rw [Object.isYoung, h.generation]
  rfl

theorem symm (h : o.SameButMark o') : o'.SameButMark o := by
  unfold SameButMark
  rw [h]

theorem trans (h : o.SameButMark o') (h' : o'.SameButMark o'') : o.SameButMark o'' := by
  unfold SameButMark
  rw [h', h]

theorem kindred (h : o.SameButMark o') : o.Kindred o' where
  generation := h.generation
  kind := by rw [h.payload]
  bytes bytes := by rw [h.payload]

end Object.SameButMark

/-- `h'` holds the objects of `h` with other marks, and the same roots and tables; only the
phase may differ as well. -/
structure Heap.SameButMarks (h h' : Heap) : Prop where
  updates : Heap.Updates Object.SameButMark h h'
  rootCells : h'.rootCells = h.rootCells
  handleRoots : h'.handleRoots = h.handleRoots
  rememberedSet : h'.rememberedSet = h.rememberedSet
  weakRefs : h'.weakRefs = h.weakRefs
  ephemerons : h'.ephemerons = h.ephemerons
  internTable : h'.internTable = h.internTable
  stressConfig : h'.stressConfig = h.stressConfig

namespace Heap.SameButMarks

variable {h h' : Heap}

/-- Marks matter to no clause of the invariant but that of the phase. -/
theorem sound (hm : h.SameButMarks h') (hs : h.Sound) : h'.Sound := by
  have hu := hm.updates
  have hk := hu.mono fun _ _ hsame => hsame.kindred
  refine ⟨hs.storage.updates hu fun _ _ hsame => hsame.width, ?_, ?_, ?_, ?_, ?_, ?_,
    hs.interns.updates hk hm.internTable, ?_⟩
  · intro slot o' ho' value hvalue
    obtain ⟨o, ho, hsame⟩ := hu.objectAt_symm ho'
    exact hk.valid (hs.fields slot o ho value (hsame.payload ▸ hvalue))
  · exact fun value hvalue => hk.valid (hs.cells value (hm.rootCells ▸ hvalue))
  · exact fun root hroot => hk.valid (hs.handles root (hm.handleRoots ▸ hroot))
  · refine ⟨hm.rememberedSet ▸ hs.remembers.nodup, fun id hid => ?_, ?_⟩
    · obtain ⟨o, ho, hold⟩ := hs.remembers.old id (hm.rememberedSet ▸ hid)
      obtain ⟨o', ho', hsame⟩ := hu.lookup ho
      exact ⟨o', ho', hsame.isOld.trans hold⟩
    · intro slot o' ho' hold id hid hyoung
      obtain ⟨o, ho, hsame⟩ := hu.objectAt_symm ho'
      have hmem := hs.remembers.complete slot o ho (hsame.isOld ▸ hold) id (hsame.payload ▸ hid)
        (hk.namesYoung hyoung)
      rw [hu.currentId, hm.rememberedSet]
      exact hmem
  · exact hm.weakRefs ▸ hs.weakRefs.updates hk
  · exact hm.ephemerons ▸ hs.ephemerons.updates hk
  · intro slot o' m ho' hp
    obtain ⟨o, ho, hsame⟩ := hu.objectAt_symm ho'
    exact hk.indexedMap (hs.maps slot o m ho (hsame.payload ▸ hp))

theorem strongReference (hm : h.SameButMarks h') {slot slot' : ℕ} :
    h'.StrongReference slot slot' ↔ h.StrongReference slot slot' := by
  constructor
  · rintro ⟨o', id, t', ho', hid, hr⟩
    obtain ⟨o, ho, hs⟩ := hm.updates.objectAt_symm ho'
    obtain ⟨t, ht, -⟩ := hm.updates.symm.resolve hr
    exact ⟨o, id, t, ho, hs.payload ▸ hid, ht⟩
  · rintro ⟨o, id, t, ho, hid, hr⟩
    obtain ⟨o', ho', hs⟩ := hm.updates.objectAt ho
    obtain ⟨t', ht', -⟩ := hm.updates.resolve hr
    exact ⟨o', id, t', ho', by rwa [hs.payload], ht'⟩

theorem ephemeronReference (hm : h.SameButMarks h') {owner key value : ℕ} :
    h'.EphemeronReference owner key value ↔ h.EphemeronReference owner key value := by
  constructor
  · rintro ⟨o', kid, vid, k', v', ho', hp, hk, hv⟩
    obtain ⟨o, ho, hs⟩ := hm.updates.objectAt_symm ho'
    obtain ⟨k, hk, -⟩ := hm.updates.symm.resolve hk
    obtain ⟨v, hv, -⟩ := hm.updates.symm.resolve hv
    exact ⟨o, kid, vid, k, v, ho, hs.payload ▸ hp, hk, hv⟩
  · rintro ⟨o, kid, vid, k, v, ho, hp, hk, hv⟩
    obtain ⟨o', ho', hs⟩ := hm.updates.objectAt ho
    obtain ⟨k', hk', -⟩ := hm.updates.resolve hk
    obtain ⟨v', hv', -⟩ := hm.updates.resolve hv
    exact ⟨o', kid, vid, k', v', ho', by rwa [hs.payload], hk', hv'⟩

theorem initial (hm : h.SameButMarks h') {kind : CollectionKind} {roots : List Value} {slot : ℕ} :
    h'.Initial kind roots slot ↔ h.Initial kind roots slot := by
  unfold Initial
  constructor
  · rintro (⟨hkind, o', ho', hold⟩ | ⟨id, o', hid, hr⟩)
    · obtain ⟨o, ho, hs⟩ := hm.updates.objectAt_symm ho'
      exact .inl ⟨hkind, o, ho, hs.isOld ▸ hold⟩
    · obtain ⟨o, ho, -⟩ := hm.updates.symm.resolve hr
      exact .inr ⟨id, o, hid, ho⟩
  · rintro (⟨hkind, o, ho, hold⟩ | ⟨id, o, hid, hr⟩)
    · obtain ⟨o', ho', hs⟩ := hm.updates.objectAt ho
      exact .inl ⟨hkind, o', ho', hs.isOld.trans hold⟩
    · obtain ⟨o', ho', -⟩ := hm.updates.resolve hr
      exact .inr ⟨id, o', hid, ho'⟩

theorem live (hm : h.SameButMarks h') (kind : CollectionKind) (roots : List Value) :
    h'.Live kind roots = h.Live kind roots := by
  have hinit : h'.Initial kind roots = h.Initial kind roots := by
    funext slot
    exact propext hm.initial
  have hstrong : h'.StrongReference = h.StrongReference := by
    funext slot slot'
    exact propext hm.strongReference
  have hgate : h'.EphemeronReference = h.EphemeronReference := by
    funext owner key value
    exact propext hm.ephemeronReference
  rw [Live, hinit, hstrong, hgate]
  rfl

theorem trans {h'' : Heap} (hm : h.SameButMarks h') (hm' : h'.SameButMarks h'') :
    h.SameButMarks h'' where
  updates := (hm.updates.trans hm'.updates).mono fun _ _ ⟨_, hs, hs'⟩ => hs.trans hs'
  rootCells := hm'.rootCells.trans hm.rootCells
  handleRoots := hm'.handleRoots.trans hm.handleRoots
  rememberedSet := hm'.rememberedSet.trans hm.rememberedSet
  weakRefs := hm'.weakRefs.trans hm.weakRefs
  ephemerons := hm'.ephemerons.trans hm.ephemerons
  internTable := hm'.internTable.trans hm.internTable
  stressConfig := hm'.stressConfig.trans hm.stressConfig

theorem traceCollectionRoots (hm : h.SameButMarks h') (extraRoots : List Value) :
    h'.traceCollectionRoots extraRoots = h.traceCollectionRoots extraRoots := by
  rw [Heap.traceCollectionRoots, hm.rootCells, hm.handleRoots]
  rfl

end Heap.SameButMarks

/-- `h'` is `h` with other marks. -/
structure Heap.MarksOnly (h h' : Heap) : Prop where
  objects : ∀ slot, Option.Rel Object.SameButMark (h.objectAt slot) (h'.objectAt slot)
  length : h'.objects.length = h.objects.length
  rest : h' = { h with objects := h'.objects }

namespace Heap.MarksOnly

variable {h h' h'' : Heap}

theorem updates (hm : h.MarksOnly h') : Updates Object.SameButMark h h' where
  objects := hm.objects
  length := hm.length
  generations := by rw [hm.rest]
  forwarded := by
    rw [hm.rest]
    rfl

theorem refl (h : Heap) : h.MarksOnly h where
  objects slot := by
    cases h.objectAt slot with
    | none => exact .none
    | some o => exact .some (.refl o)
  length := rfl
  rest := rfl

theorem trans (hm : h.MarksOnly h') (hm' : h'.MarksOnly h'') : h.MarksOnly h'' where
  objects := ((hm.updates.trans hm'.updates).mono
    fun _ _ ⟨_, hs, hs'⟩ => hs.trans hs').objects
  length := hm'.length.trans hm.length
  rest := by
    rw [hm'.rest, hm.rest]

theorem putObject {slot : ℕ} {o o' : Object} (ho : h.objectAt slot = some o)
    (hs : o.SameButMark o') : h.MarksOnly (h.putObject slot o') where
  objects slot' := by
    rw [objectAt_putObject o' (lt_length_of_objectAt ho)]
    by_cases heq : slot' = slot
    · rw [if_pos heq, heq, ho]
      exact .some hs
    · rw [if_neg heq]
      exact (refl h).objects slot'
  length := length_objects_putObject h slot o'
  rest := rfl

theorem resolve (hm : h.MarksOnly h') {id : ObjectId} {slot : ℕ} {o : Object}
    (hr : h.resolve id = .ok (slot, o)) :
    ∃ o', h'.resolve id = .ok (slot, o') ∧ o.SameButMark o' := hm.updates.resolve hr

theorem resolve_symm (hm : h.MarksOnly h') {id : ObjectId} {slot : ℕ} {o' : Object}
    (hr : h'.resolve id = .ok (slot, o')) :
    ∃ o, h.resolve id = .ok (slot, o) ∧ o.SameButMark o' := hm.updates.symm.resolve hr

theorem rootCells (hm : h.MarksOnly h') : h'.rootCells = h.rootCells := by rw [hm.rest]

theorem handleRoots (hm : h.MarksOnly h') : h'.handleRoots = h.handleRoots := by rw [hm.rest]

theorem rememberedSet (hm : h.MarksOnly h') : h'.rememberedSet = h.rememberedSet := by
  rw [hm.rest]

theorem weakRefs (hm : h.MarksOnly h') : h'.weakRefs = h.weakRefs := by rw [hm.rest]

theorem ephemerons (hm : h.MarksOnly h') : h'.ephemerons = h.ephemerons := by rw [hm.rest]

theorem internTable (hm : h.MarksOnly h') : h'.internTable = h.internTable := by rw [hm.rest]

theorem phase (hm : h.MarksOnly h') : h'.phase = h.phase := by rw [hm.rest]

theorem same (hm : h.MarksOnly h') : h.SameButMarks h' :=
  ⟨hm.updates, hm.rootCells, hm.handleRoots, hm.rememberedSet, hm.weakRefs, hm.ephemerons,
    hm.internTable, by rw [hm.rest]⟩

theorem sound (hm : h.MarksOnly h') (hs : h.Sound) : h'.Sound := hm.same.sound hs

end Heap.MarksOnly

/-! ## Counting the unmarked objects -/

namespace Heap

/-- Marking an object leaves one unmarked object less. -/
theorem unmarkedCount_putObject {h : Heap} {slot : ℕ} {o : Object}
    (ho : h.objectAt slot = some o) (hmarked : o.marked = false) :
    (h.putObject slot { o with marked := true }).unmarkedCount + 1 = h.unmarkedCount := by
  have hlt := lt_length_of_objectAt ho
  have hget : h.objects[slot] = some o := by
    rw [objectAt, List.getD_eq_getElem _ _ hlt] at ho
    exact ho
  have hmem : some o ∈ h.objects := mem_objects_of_objectAt ho
  have hpos : 0 < h.unmarkedCount :=
    List.countP_pos_iff.mpr ⟨_, hmem, by simp [hmarked]⟩
  unfold unmarkedCount at hpos ⊢
  rw [putObject, List.countP_set hlt, hget]
  simp only [Option.any_some, hmarked, Bool.not_false, Bool.not_true, if_true, Bool.false_eq_true,
    if_false]
  omega

theorem unmarkedCount_le (h : Heap) : h.unmarkedCount ≤ h.objects.length := List.countP_le_length

/-! ## Enqueuing -/

section Enqueue

variable {h : Heap} {kind : CollectionKind}

/-- What enqueuing values adds to a worklist. -/
structure Enqueued (h : Heap) (kind : CollectionKind) (before : List ObjectId)
    (values : List Value) (after : List ObjectId) : Prop where
  keeps : before ⊆ after
  origin : ∀ id ∈ after, id ∈ before ∨ .object id ∈ values
  covers : ∀ id, .object id ∈ values → id ∈ after ∨ h.NamesLive kind id

/-- An object is enqueued unless it counts as live already. -/
theorem enqueueMarkValue_object {id : ObjectId} {slot : ℕ} {o : Object} (worklist : List ObjectId)
    (hr : h.resolve id = .ok (slot, o)) :
    h.enqueueMarkValue kind worklist (.object id) =
      .ok (if o.countsAsLive kind = true then worklist else id :: worklist) := by
  unfold enqueueMarkValue
  simp only [hr]
  show (if kind = .minor ∧ (!o.isYoung) = true then pure worklist
    else if (!o.marked) = true then pure (id :: worklist) else pure worklist) = _
  cases kind <;> cases hm : o.marked <;> cases hg : o.generation <;>
    simp [Object.countsAsLive, Object.isYoung, Object.isOld, hm, hg]

theorem enqueueMarkValue_ok (kind : CollectionKind) (worklist : List ObjectId) {value : Value} (hv : h.Valid value) :
    ∃ worklist', h.enqueueMarkValue kind worklist value = .ok worklist' ∧
      h.Enqueued kind worklist [value] worklist' := by
  cases value with
  | object id =>
    obtain ⟨slot, o, hr⟩ := valid_object.mp hv
    refine ⟨_, enqueueMarkValue_object worklist hr, ?_, ?_, ?_⟩
    · split
      · exact fun _ hid => hid
      · exact List.subset_cons_self _ _
    · intro id' hid'
      split at hid'
      · exact .inl hid'
      · rcases List.mem_cons.mp hid' with rfl | hid'
        · exact .inr (List.mem_singleton.mpr rfl)
        · exact .inl hid'
    · intro id' hid'
      obtain rfl : id' = id := by simpa using hid'
      split
      · next hlive => exact .inr ⟨slot, o, hr, hlive⟩
      · exact .inl List.mem_cons_self
  | _ => exact ⟨worklist, rfl, fun _ hid => hid, fun _ => .inl, fun id hid => by simp at hid⟩

theorem Enqueued.append {before between after : List ObjectId} {values values' : List Value}
    (hq : h.Enqueued kind before values between) (hq' : h.Enqueued kind between values' after) :
    h.Enqueued kind before (values ++ values') after where
  keeps _ hid := hq'.keeps (hq.keeps hid)
  origin id hid := by
    rcases hq'.origin id hid with hid | hid
    · exact (hq.origin id hid).imp_right fun hmem => List.mem_append_left _ hmem
    · exact .inr (List.mem_append_right _ hid)
  covers id hid := by
    rcases List.mem_append.mp hid with hid | hid
    · exact (hq.covers id hid).imp_left fun hmem => hq'.keeps hmem
    · exact hq'.covers id hid

theorem Enqueued.nil (worklist : List ObjectId) : h.Enqueued kind worklist [] worklist :=
  ⟨fun _ hid => hid, fun _ => .inl, nofun⟩

theorem enqueueMarkValues_ok (kind : CollectionKind) {values : List Value} (hv : ∀ value ∈ values, h.Valid value)
    (worklist : List ObjectId) :
    ∃ worklist', h.enqueueMarkValues kind worklist values = .ok worklist' ∧
      h.Enqueued kind worklist values worklist' := by
  induction values generalizing worklist with
  | nil => exact ⟨worklist, rfl, .nil worklist⟩
  | cons value values ih =>
    obtain ⟨worklist₁, hok₁, hq₁⟩ := enqueueMarkValue_ok kind worklist (hv value (by simp))
    obtain ⟨worklist₂, hok₂, hq₂⟩ := ih (fun v hmem => hv v (by simp [hmem])) worklist₁
    refine ⟨worklist₂, ?_, hq₁.append hq₂⟩
    rw [enqueueMarkValues, List.foldlM_cons, hok₁]
    exact hok₂

/-- The strong fields of the object an identifier has now. -/
def strongFieldsOf (h : Heap) (id : ObjectId) : List Value :=
  (h.lookup id).elim [] fun o => o.payload.referenceFieldsForLifoMarking

/-- A minor collection enqueues the young objects the remembered ones refer to. -/
theorem enqueueYoungReferencesFromRememberedSet_ok
    (hold : ∀ id ∈ h.rememberedSet, ∃ o, h.lookup id = some o ∧ o.isOld = true)
    (hvalid : ∀ slot o, h.objectAt slot = some o → ∀ value ∈ o.payload.referenceFields,
      h.Valid value) (worklist : List ObjectId) :
    ∃ worklist', h.enqueueYoungReferencesFromRememberedSet worklist = .ok worklist' ∧
      h.Enqueued .minor worklist (h.rememberedSet.flatMap h.strongFieldsOf) worklist' := by
  unfold enqueueYoungReferencesFromRememberedSet
  generalize h.rememberedSet = remembered at hold ⊢
  induction remembered generalizing worklist with
  | nil => exact ⟨worklist, rfl, .nil worklist⟩
  | cons id remembered ih =>
    obtain ⟨o, ho, hisOld⟩ := hold id List.mem_cons_self
    have hfields : ∀ value ∈ o.payload.referenceFieldsForLifoMarking, h.Valid value := by
      intro value hvalue
      rw [Payload.referenceFieldsForLifoMarking, List.mem_reverse] at hvalue
      exact hvalid id.slot o (objectAt_of_lookup ho) value hvalue
    obtain ⟨worklist₁, hok₁, hq₁⟩ := enqueueMarkValues_ok .minor hfields worklist
    obtain ⟨worklist₂, hok₂, hq₂⟩ :=
      ih worklist₁ (fun id' hid' => hold id' (List.mem_cons_of_mem _ hid'))
    refine ⟨worklist₂, ?_, ?_⟩
    · rw [List.foldlM_cons, resolve_of_lookup ho, ok_bind]
      simp only [hisOld, Bool.not_true, Bool.false_eq_true, if_false, hok₁, ok_bind]
      exact hok₂
    · rw [List.flatMap_cons]
      refine Enqueued.append ?_ hq₂
      rw [strongFieldsOf, ho]
      exact hq₁

end Enqueue

/-! ## Scanning -/

/-- The loop of `drainMarkWorklist`, without fuel: it leaves the heap `h'`. -/
inductive Drains (kind : CollectionKind) : List ObjectId → Heap → Heap → Prop
  | exhausted {worklist : List ObjectId} {h h' : Heap}
      (hscan : scanNextMarkObject kind worklist h = .ok none h') : Drains kind worklist h h'
  | scanned {worklist worklist' : List ObjectId} {h h₁ h' : Heap}
      (hscan : scanNextMarkObject kind worklist h = .ok (some worklist') h₁)
      (hrest : Drains kind worklist' h₁ h') : Drains kind worklist h h'

/-- The state of a marking loop that starts with the objects at `start`, whose references it does
not follow: what counts as live is live, what it has marked refers only to what counts as live or
is grey, grey is live, and the promised objects will count as live. -/
structure TracingFrom (kind : CollectionKind) (start live : ℕ → Prop) (promised : ObjectId → Prop)
    (h : Heap) (worklist : List ObjectId) : Prop where
  valid : ∀ slot o, h.objectAt slot = some o → ∀ value ∈ o.payload.referenceFields, h.Valid value
  started : ∀ slot o, start slot → h.objectAt slot = some o → o.countsAsLive kind = true
  closed : ∀ slot slot', live slot → ¬start slot → h.StrongReference slot slot' → live slot'
  sound : ∀ slot o, h.objectAt slot = some o → o.countsAsLive kind = true → live slot
  grey : ∀ id ∈ worklist, ∃ slot o, h.resolve id = .ok (slot, o) ∧ live slot
  traces : ∀ slot o, h.objectAt slot = some o → o.countsAsLive kind = true → ¬start slot →
    ∀ id, .object id ∈ o.payload.referenceFields →
      ∀ slot' o', h.resolve id = .ok (slot', o') → o'.countsAsLive kind = true ∨ id ∈ worklist
  promised : ∀ id, promised id → id ∈ worklist ∨ h.NamesLive kind id

/-- The state of a marking loop: what counts as live is live and refers only to what counts
as live or is grey, grey is live, and the promised objects will count as live. -/
structure Tracing (kind : CollectionKind) (live : ℕ → Prop) (promised : ObjectId → Prop)
    (h : Heap) (worklist : List ObjectId) : Prop where
  valid : ∀ slot o, h.objectAt slot = some o → ∀ value ∈ o.payload.referenceFields, h.Valid value
  closed : ∀ slot slot', live slot → h.StrongReference slot slot' → live slot'
  sound : ∀ slot o, h.objectAt slot = some o → o.countsAsLive kind = true → live slot
  grey : ∀ id ∈ worklist, ∃ slot o, h.resolve id = .ok (slot, o) ∧ live slot
  traces : h.Traces kind worklist
  promised : ∀ id, promised id → id ∈ worklist ∨ h.NamesLive kind id

section Scan

variable {h : Heap} {kind : CollectionKind} {start live : ℕ → Prop} {promised : ObjectId → Prop}
  {id : ObjectId} {worklist : List ObjectId}

/-- A loop that follows the references of all objects. -/
theorem tracing_iff : Tracing kind live promised h worklist ↔
    TracingFrom kind (fun _ => False) live promised h worklist := by
  constructor
  · intro ht
    exact ⟨ht.valid, fun _ _ => False.elim, fun slot slot' hlive _ => ht.closed slot slot' hlive,
      ht.sound, ht.grey, fun slot o ho hlive _ => ht.traces slot o ho hlive, ht.promised⟩
  · intro ht
    exact ⟨ht.valid, fun slot slot' hlive => ht.closed slot slot' hlive not_false, ht.sound, ht.grey,
      fun slot o ho hlive => ht.traces slot o ho hlive not_false, ht.promised⟩

/-- An object that already counts as live leaves the worklist. -/
theorem TracingFrom.skip {slot : ℕ} {o : Object}
    (ht : TracingFrom kind start live promised h (id :: worklist)) (hr : h.resolve id = .ok (slot, o))
    (hlive : o.countsAsLive kind = true) : TracingFrom kind start live promised h worklist where
  valid := ht.valid
  started := ht.started
  closed := ht.closed
  sound := ht.sound
  grey id' hid' := ht.grey id' (List.mem_cons_of_mem _ hid')
  traces slot₁ o₁ ho₁ hlive₁ hnew id' hid' slot' o' hr' := by
    rcases ht.traces slot₁ o₁ ho₁ hlive₁ hnew id' hid' slot' o' hr' with hlive' | hmem
    · exact .inl hlive'
    · rcases List.mem_cons.mp hmem with rfl | hmem
      · rw [hr] at hr'
        cases hr'
        exact .inl hlive
      · exact .inr hmem
  promised id' hid' := by
    rcases ht.promised id' hid' with hmem | hlive'
    · rcases List.mem_cons.mp hmem with rfl | hmem
      · exact .inr ⟨slot, o, hr, hlive⟩
      · exact .inl hmem
    · exact .inr hlive'

/-- Marking the object on top of the worklist and enqueuing its references. -/
theorem TracingFrom.mark {slot : ℕ} {o : Object} {worklist' : List ObjectId}
    (ht : TracingFrom kind start live promised h (id :: worklist)) (hr : h.resolve id = .ok (slot, o))
    (hnew : ¬start slot) (hq : (h.putObject slot { o with marked := true }).Enqueued kind worklist
      o.payload.referenceFieldsForLifoMarking worklist') :
    TracingFrom kind start live promised (h.putObject slot { o with marked := true }) worklist' := by
  have ho := objectAt_of_resolve hr
  have hm : h.MarksOnly (h.putObject slot { o with marked := true }) := .putObject ho rfl
  have hslot := lt_length_of_objectAt ho
  -- marks are only added
  have hkeep : ∀ slot₁ o₁ o₂, h.objectAt slot₁ = some o₁ →
      (h.putObject slot { o with marked := true }).objectAt slot₁ = some o₂ →
      o₁.countsAsLive kind = true → o₂.countsAsLive kind = true := by
    intro slot₁ o₁ o₂ ho₁ ho₂ hlive
    rw [objectAt_putObject _ hslot] at ho₂
    split at ho₂
    · cases ho₂
      simp [Object.countsAsLive]
    · rw [ho₁] at ho₂
      cases ho₂
      exact hlive
  have hnames : ∀ id', h.NamesLive kind id' →
      (h.putObject slot { o with marked := true }).NamesLive kind id' := by
    rintro id' ⟨slot', o', hr', hlive'⟩
    obtain ⟨o'', hr'', -⟩ := hm.resolve hr'
    exact ⟨slot', o'', hr'', hkeep slot' o' o'' (objectAt_of_resolve hr')
      (objectAt_of_resolve hr'') hlive'⟩
  have hself : (h.putObject slot { o with marked := true }).NamesLive kind id := by
    obtain ⟨o'', hr'', -⟩ := hm.resolve hr
    refine ⟨slot, o'', hr'', ?_⟩
    have ho'' := objectAt_of_resolve hr''
    rw [objectAt_putObject _ hslot, if_pos rfl] at ho''
    cases ho''
    simp [Object.countsAsLive]
  have hlive : live slot := by
    obtain ⟨slot', o', hr', hlive⟩ := ht.grey id List.mem_cons_self
    rw [hr] at hr'
    cases hr'
    exact hlive
  refine ⟨?_, ?_, ?_, ?_, ?_, ?_, ?_⟩
  · intro slot₁ o₁ ho₁ value hvalue
    obtain ⟨o₂, ho₂, hs⟩ := hm.updates.objectAt_symm ho₁
    exact hm.updates.valid (ht.valid slot₁ o₂ ho₂ value (hs.payload ▸ hvalue))
  · intro slot₁ o₁ hstart ho₁
    obtain ⟨o₂, ho₂, -⟩ := hm.updates.objectAt_symm ho₁
    exact hkeep slot₁ o₂ o₁ ho₂ ho₁ (ht.started slot₁ o₂ hstart ho₂)
  · exact fun slot₁ slot₂ h₁ hnew₁ h₂ =>
      ht.closed slot₁ slot₂ h₁ hnew₁ (hm.same.strongReference.mp h₂)
  · intro slot₁ o₁ ho₁ hlive₁
    rw [objectAt_putObject _ hslot] at ho₁
    split at ho₁
    · next heq => exact heq ▸ hlive
    · exact ht.sound slot₁ o₁ ho₁ hlive₁
  · intro id' hid'
    have hgrey : ∃ slot' o', h.resolve id' = .ok (slot', o') ∧ live slot' := by
      rcases hq.origin id' hid' with hmem | hmem
      · exact ht.grey id' (List.mem_cons_of_mem _ hmem)
      · rw [Payload.referenceFieldsForLifoMarking, List.mem_reverse] at hmem
        obtain ⟨slot', o', hr'⟩ := valid_object.mp (ht.valid slot o ho _ hmem)
        exact ⟨slot', o', hr', ht.closed slot slot' hlive hnew ⟨o, id', o', ho, hmem, hr'⟩⟩
    obtain ⟨slot', o', hr', hlive'⟩ := hgrey
    obtain ⟨o'', hr'', -⟩ := hm.resolve hr'
    exact ⟨slot', o'', hr'', hlive'⟩
  · intro slot₁ o₁ ho₁ hlive₁ hnew₁ id' hid' slot' o' hr'
    have hcases : id' ∈ worklist' ∨
        (h.putObject slot { o with marked := true }).NamesLive kind id' := by
      rw [objectAt_putObject _ hslot] at ho₁
      split at ho₁
      · cases ho₁
        refine hq.covers id' ?_
        rwa [Payload.referenceFieldsForLifoMarking, List.mem_reverse]
      · obtain ⟨o'', hr'', -⟩ := hm.resolve_symm hr'
        rcases ht.traces slot₁ o₁ ho₁ hlive₁ hnew₁ id' hid' slot' o'' hr'' with hlive' | hmem
        · exact .inr (hnames id' ⟨slot', o'', hr'', hlive'⟩)
        · rcases List.mem_cons.mp hmem with rfl | hmem
          · exact .inr hself
          · exact .inl (hq.keeps hmem)
    rcases hcases with hmem | ⟨slot'', o'', hr'', hlive''⟩
    · exact .inr hmem
    · rw [hr'] at hr''
      cases hr''
      exact .inl hlive''
  · intro id' hid'
    rcases ht.promised id' hid' with hmem | hlive'
    · rcases List.mem_cons.mp hmem with rfl | hmem
      · exact .inr hself
      · exact .inl (hq.keeps hmem)
    · exact .inr (hnames id' hlive')

/-- An object that already counts as live leaves the worklist. -/
theorem Tracing.skip {slot : ℕ} {o : Object}
    (ht : Tracing kind live promised h (id :: worklist)) (hr : h.resolve id = .ok (slot, o))
    (hlive : o.countsAsLive kind = true) : Tracing kind live promised h worklist :=
  tracing_iff.mpr ((tracing_iff.mp ht).skip hr hlive)

/-- Marking the object on top of the worklist and enqueuing its references. -/
theorem Tracing.mark {slot : ℕ} {o : Object} {worklist' : List ObjectId}
    (ht : Tracing kind live promised h (id :: worklist)) (hr : h.resolve id = .ok (slot, o))
    (hq : (h.putObject slot { o with marked := true }).Enqueued kind worklist
      o.payload.referenceFieldsForLifoMarking worklist') :
    Tracing kind live promised (h.putObject slot { o with marked := true }) worklist' :=
  tracing_iff.mpr ((tracing_iff.mp ht).mark hr not_false hq)

/-- What one call of `scanNextMarkObject` leaves. -/
def Scanned (kind : CollectionKind) (start live : ℕ → Prop) (promised : ObjectId → Prop) (h : Heap)
    (worklist : List ObjectId) (result : Option (List ObjectId)) (h' : Heap) : Prop :=
  h.MarksOnly h' ∧ match result with
    | none => h' = h ∧ TracingFrom kind start live promised h []
    | some worklist' => TracingFrom kind start live promised h' worklist' ∧
      h'.unmarkedCount + 1 = h.unmarkedCount ∧ ∃ id ∈ worklist, ¬h.NamesLive kind id

theorem Scanned.cons {result : Option (List ObjectId)} {h' : Heap} (id : ObjectId)
    (hs : Scanned kind start live promised h worklist result h') :
    Scanned kind start live promised h (id :: worklist) result h' := by
  cases result with
  | none => exact hs
  | some worklist' =>
    obtain ⟨hm, ht, hcount, id', hmem, hdead⟩ := hs
    exact ⟨hm, ht, hcount, id', List.mem_cons_of_mem _ hmem, hdead⟩

/-- One call of `scanNextMarkObject` marks one object, or finds that nothing is grey. -/
theorem TracingFrom.wp_scanNextMarkObject (ht : TracingFrom kind start live promised h worklist) :
    wp (scanNextMarkObject kind worklist) (Scanned kind start live promised h worklist)
      (fun _ _ => False) h := by
  induction worklist with
  | nil => exact ⟨.refl h, rfl, ht⟩
  | cons id worklist ih =>
    obtain ⟨slot, o, hr, -⟩ := ht.grey id List.mem_cons_self
    have hskip : TracingFrom kind start live promised h worklist →
        wp (scanNextMarkObject kind worklist) (Scanned kind start live promised h (id :: worklist))
          (fun _ _ => False) h := fun ht' =>
      wp_mono (ih ht') (fun _ _ hscanned => hscanned.cons id) fun _ _ he => he
    unfold scanNextMarkObject
    refine wp_query_bind (fun found hfound => ?_) fun e he => ?_
    · rw [hr] at hfound
      cases hfound
      refine wp_ite (fun hold => ?_) fun hyoung => wp_ite (fun hmarked => ?_) fun hmarked => ?_
      · refine hskip (ht.skip hr ?_)
        have hgeneration : o.isOld = true := by
          cases hg : o.generation <;> simp_all [Object.isYoung, Object.isOld]
        simp [Object.countsAsLive, hold.1, hgeneration]
      · exact hskip (ht.skip hr (by simp [Object.countsAsLive, hmarked]))
      · have ho := objectAt_of_resolve hr
        have hm : h.MarksOnly (h.putObject slot { o with marked := true }) := .putObject ho rfl
        have hdead : o.countsAsLive kind ≠ true := by
          cases hg : o.generation <;> cases kind <;>
            simp_all [Object.countsAsLive, Object.isYoung, Object.isOld]
        have hnew : ¬start slot := fun hstart => hdead (ht.started slot o hstart ho)
        have hunnamed : ¬h.NamesLive kind id := by
          rintro ⟨slot', o', hr', hlive⟩
          rw [hr] at hr'
          cases hr'
          exact hdead hlive
        have hvalid : ∀ value ∈ o.payload.referenceFieldsForLifoMarking,
            (h.putObject slot { o with marked := true }).Valid value := by
          intro value hvalue
          rw [Payload.referenceFieldsForLifoMarking, List.mem_reverse] at hvalue
          exact hm.updates.valid (ht.valid slot o ho value hvalue)
        obtain ⟨worklist', hok, hq⟩ := enqueueMarkValues_ok kind hvalid worklist
        rw [wp_bind, wp_modify]
        refine wp_query_bind (fun worklist'' hok' => ?_) fun e he => ?_
        · rw [hok] at hok'
          cases hok'
          exact ⟨hm, ht.mark hr hnew hq, unmarkedCount_putObject ho (by simpa using hmarked),
            id, List.mem_cons_self, hunnamed⟩
        · rw [hok] at he
          cases he
    · rw [hr] at he
      cases he

/-- Draining marks everything grey, unless everything grey counts as live already. -/
theorem TracingFrom.wp_drainMarkLoop {fuel : ℕ} (ht : TracingFrom kind start live promised h worklist)
    (hfuel : h.unmarkedCount < fuel) :
    wp (drainMarkLoop kind fuel worklist) (fun _ h' => h.MarksOnly h' ∧
      TracingFrom kind start live promised h' [] ∧
      (h'.unmarkedCount < h.unmarkedCount ∧ (∃ id ∈ worklist, ¬h.NamesLive kind id) ∨
        h' = h ∧ ∀ id ∈ worklist, h.NamesLive kind id) ∧
      Drains kind worklist h h') (fun _ _ => False) h := by
  induction fuel generalizing h worklist with
  | zero => omega
  | succ fuel ih =>
    -- what is grey now is promised as well
    have ht' : TracingFrom kind start live (fun id => promised id ∨ id ∈ worklist) h worklist :=
      { ht with promised := fun id hid => hid.elim (ht.promised id) .inl }
    have hforget : ∀ h' worklist',
        TracingFrom kind start live (fun id => promised id ∨ id ∈ worklist) h' worklist' →
        TracingFrom kind start live promised h' worklist' := fun _ _ ht₁ =>
      { ht₁ with promised := fun id hid => ht₁.promised id (.inl hid) }
    unfold drainMarkLoop
    rw [wp_bind]
    refine wp_mono (wp_run ht'.wp_scanNextMarkObject) (fun result h₁ hpost => ?_) fun _ _ he => he
    obtain ⟨⟨hm, hresult⟩, hrun⟩ := hpost
    cases result with
    | none =>
      obtain ⟨rfl, ht₁⟩ := hresult
      refine ⟨hm, hforget _ _ ht₁, .inr ⟨rfl, fun id hid => ?_⟩, .exhausted hrun⟩
      exact (ht₁.promised id (.inr hid)).resolve_left List.not_mem_nil
    | some worklist' =>
      obtain ⟨ht₁, hcount, hgrey⟩ := hresult
      refine wp_mono (ih (hforget _ _ ht₁) (by omega)) (fun _ h₂ h₂spec => ?_) fun _ _ he => he
      obtain ⟨hm₂, ht₂, hcount₂, hdrains⟩ := h₂spec
      refine ⟨hm.trans hm₂, ht₂, .inl ⟨?_, hgrey⟩, .scanned hrun hdrains⟩
      rcases hcount₂ with ⟨hlt, -⟩ | ⟨rfl, -⟩
      · omega
      · omega

theorem TracingFrom.wp_drainMarkWorklist (ht : TracingFrom kind start live promised h worklist) :
    wp (drainMarkWorklist kind worklist) (fun _ h' => h.MarksOnly h' ∧
      TracingFrom kind start live promised h' [] ∧
      (h'.unmarkedCount < h.unmarkedCount ∧ (∃ id ∈ worklist, ¬h.NamesLive kind id) ∨
        h' = h ∧ ∀ id ∈ worklist, h.NamesLive kind id) ∧
      Drains kind worklist h h') (fun _ _ => False) h := by
  unfold drainMarkWorklist
  rw [wp_bind, wp_get]
  exact ht.wp_drainMarkLoop (Nat.lt_succ_of_le h.unmarkedCount_le)

/-- One call of `scanNextMarkObject` marks one object, or finds that nothing is grey. -/
theorem wp_scanNextMarkObject (ht : Tracing kind live promised h worklist) :
    wp (scanNextMarkObject kind worklist) (fun result h' => h.MarksOnly h' ∧
      match result with
      | none => h' = h ∧ Tracing kind live promised h []
      | some worklist' => Tracing kind live promised h' worklist' ∧
        h'.unmarkedCount + 1 = h.unmarkedCount) (fun _ _ => False) h := by
  refine wp_mono (tracing_iff.mp ht).wp_scanNextMarkObject (fun result h' hpost => ?_)
    fun _ _ he => he
  cases result with
  | none =>
    obtain ⟨hm, hsame, ht'⟩ := hpost
    exact ⟨hm, hsame, tracing_iff.mpr ht'⟩
  | some worklist' =>
    obtain ⟨hm, ht', hcount, -⟩ := hpost
    exact ⟨hm, tracing_iff.mpr ht', hcount⟩

theorem wp_drainMarkWorklist (ht : Tracing kind live promised h worklist) :
    wp (drainMarkWorklist kind worklist) (fun _ h' => h.MarksOnly h' ∧
      Tracing kind live promised h' [] ∧ (h'.unmarkedCount < h.unmarkedCount ∨
        h' = h ∧ ∀ id ∈ worklist, h.NamesLive kind id)) (fun _ _ => False) h := by
  refine wp_mono (tracing_iff.mp ht).wp_drainMarkWorklist (fun _ h' hpost => ?_) fun _ _ he => he
  obtain ⟨hm, ht', hcount, -⟩ := hpost
  exact ⟨hm, tracing_iff.mpr ht', hcount.imp_left fun hand => hand.1⟩

end Scan

/-! ## The ephemeron fixpoint -/

section Fixpoint

variable {h : Heap} {kind : CollectionKind} {start live : ℕ → Prop} {promised : ObjectId → Prop}

/-- `id` is the value of a live ephemeron of `owners` whose key is live. -/
def ActiveValue (h : Heap) (kind : CollectionKind) (owners : List ObjectId) (id : ObjectId) : Prop :=
  ∃ owner ∈ owners, ∃ o keyId, h.lookup owner = some o ∧
    o.payload = .ephemeron (.object keyId) (.object id) true ∧ o.countsAsLive kind = true ∧
    h.NamesLive kind keyId

/-- What a pass over the ephemerons `owners` adds to a worklist. -/
structure Activates (h : Heap) (kind : CollectionKind) (owners : List ObjectId)
    (before after : List ObjectId × Bool) : Prop where
  keeps : before.1 ⊆ after.1
  origin : ∀ id ∈ after.1, id ∈ before.1 ∨ h.ActiveValue kind owners id
  idle : after.2 = false → after.1 = before.1 ∧ before.2 = false ∧
    ∀ id, h.ActiveValue kind owners id → h.NamesLive kind id
  progress : after.2 = true → before.2 = true ∨
    ∃ id ∈ after.1, h.ActiveValue kind owners id ∧ ¬h.NamesLive kind id

/-- A pass that has nothing to do for an ephemeron. -/
theorem Activates.none {owner : ObjectId} (state : List ObjectId × Bool)
    (hlive : ∀ id, h.ActiveValue kind [owner] id → h.NamesLive kind id) :
    h.Activates kind [owner] state state where
  keeps := fun _ hid => hid
  origin := fun _ => .inl
  idle := fun hidle => ⟨rfl, hidle, hlive⟩
  progress := .inl

theorem activateEphemeron_ok (kind : CollectionKind) {owner : ObjectId} {o : Object} (state : List ObjectId × Bool)
    (ho : h.lookup owner = some o) (hvalid : ∀ value ∈ o.payload.allFields, h.Valid value) :
    ∃ after, h.activateEphemeron kind state owner = .ok after ∧
      h.Activates kind [owner] state after := by
  have hr := resolve_of_lookup ho
  -- the only ephemeron of the pass is this one
  have hself : ∀ id, h.ActiveValue kind [owner] id → ∃ keyId,
      o.payload = .ephemeron (.object keyId) (.object id) true ∧ o.countsAsLive kind = true ∧
        h.NamesLive kind keyId := by
    rintro id ⟨owner', hmem, o', keyId, ho', hp, hlive, hkey⟩
    obtain rfl : owner' = owner := by simpa using hmem
    rw [ho] at ho'
    cases ho'
    exact ⟨keyId, hp, hlive, hkey⟩
  have hnone : ∀ {x : Except HeapError (List ObjectId × Bool)}, x = .ok state →
      (∀ id, h.ActiveValue kind [owner] id → h.NamesLive kind id) →
      ∃ after, x = .ok after ∧ h.Activates kind [owner] state after :=
    fun hx hlive => ⟨state, hx, .none state hlive⟩
  unfold activateEphemeron
  simp only [hr, ok_bind]
  split
  · next key value valueIsRef hp =>
    by_cases hlive : o.countsAsLive kind = true
    · obtain ⟨keySlot, keyObject, hkey⟩ : h.Resolves key :=
        valid_object.mp (hvalid _ (by simp [hp, Payload.allFields, Payload.weakFields]))
      by_cases hkeyLive : keyObject.countsAsLive kind = true
      · by_cases hvalue : valueIsRef = true ∧ value.isObject = true
        · obtain ⟨rfl, hobject⟩ := hvalue
          obtain ⟨valueId, rfl⟩ := Value.isObject_iff.mp hobject
          obtain ⟨valueSlot, valueObject, hvr⟩ : h.Resolves valueId := valid_object.mp
            (hvalid _ (by simp [hp, Payload.allFields, Payload.weakFields]))
          by_cases hvalueLive : valueObject.countsAsLive kind = true
          · refine hnone (by simp [hlive, hkey, hvr, hvalueLive]) ?_
            intro id hid
            obtain ⟨keyId, hp', -, -⟩ := hself id hid
            rw [hp] at hp'
            cases hp'
            exact ⟨valueSlot, valueObject, hvr, hvalueLive⟩
          · refine ⟨(valueId :: state.1, true), ?_, ?_, ?_, ?_, ?_⟩
            · simp [hlive, hkey, hkeyLive, hvr, hvalueLive, enqueueMarkValue_object state.1 hvr]
            · exact List.subset_cons_self _ _
            · intro id hid
              rcases List.mem_cons.mp hid with rfl | hid
              · exact .inr ⟨owner, by simp, o, key, ho, hp, hlive, keySlot, keyObject, hkey, hkeyLive⟩
              · exact .inl hid
            · exact nofun
            · rintro -
              refine .inr ⟨valueId, List.mem_cons_self, ⟨owner, by simp, o, key, ho, hp, hlive,
                keySlot, keyObject, hkey, hkeyLive⟩, ?_⟩
              rintro ⟨slot', o', hr', hlive'⟩
              rw [hvr] at hr'
              cases hr'
              exact hvalueLive hlive'
        · refine hnone ?_ ?_
          · cases valueIsRef <;> cases value <;> simp_all
          · intro id hid
            obtain ⟨keyId, hp', -, -⟩ := hself id hid
            rw [hp] at hp'
            cases hp'
            exact absurd ⟨rfl, rfl⟩ hvalue
      · refine hnone (by simp [hlive, hkey, hkeyLive]) ?_
        intro id hid
        obtain ⟨keyId, hp', -, slot', o', hr', hlive'⟩ := hself id hid
        rw [hp] at hp'
        cases hp'
        rw [hkey] at hr'
        cases hr'
        exact absurd hlive' hkeyLive
    · refine hnone (by simp [hlive]) ?_
      intro id hid
      obtain ⟨keyId, -, hlive', -⟩ := hself id hid
      exact absurd hlive' hlive
  · next hp =>
    refine hnone rfl ?_
    intro id hid
    obtain ⟨keyId, hp', -, -⟩ := hself id hid
    exact absurd hp' (hp _ _ _)

theorem activateEphemerons_ok (kind : CollectionKind) {owners : List ObjectId}
    (howners : ∀ owner ∈ owners, ∃ o, h.lookup owner = some o ∧
      ∀ value ∈ o.payload.allFields, h.Valid value) (state : List ObjectId × Bool) :
    ∃ after, owners.foldlM (h.activateEphemeron kind) state = .ok after ∧
      h.Activates kind owners state after := by
  induction owners generalizing state with
  | nil =>
    refine ⟨state, rfl, fun _ hid => hid, fun _ => .inl, fun hidle => ⟨rfl, hidle, ?_⟩, .inl⟩
    rintro id ⟨owner, hmem, -⟩
    exact absurd hmem List.not_mem_nil
  | cons owner owners ih =>
    obtain ⟨o, ho, hvalid⟩ := howners owner List.mem_cons_self
    obtain ⟨state₁, hok₁, h₁⟩ := activateEphemeron_ok kind state ho hvalid
    obtain ⟨state₂, hok₂, h₂⟩ := ih (fun x hx => howners x (List.mem_cons_of_mem _ hx)) state₁
    have hhead : ∀ id, h.ActiveValue kind [owner] id → h.ActiveValue kind (owner :: owners) id := by
      rintro id ⟨x, hx, hrest⟩
      exact ⟨x, by simp_all, hrest⟩
    have htail : ∀ id, h.ActiveValue kind owners id → h.ActiveValue kind (owner :: owners) id := by
      rintro id ⟨x, hx, hrest⟩
      exact ⟨x, List.mem_cons_of_mem _ hx, hrest⟩
    refine ⟨state₂, ?_, fun _ hid => h₂.keeps (h₁.keeps hid), ?_, ?_, ?_⟩
    · rw [List.foldlM_cons, hok₁]
      exact hok₂
    · intro id hid
      rcases h₂.origin id hid with hid | hid
      · exact (h₁.origin id hid).imp_right (hhead id)
      · exact .inr (htail id hid)
    · intro hidle
      obtain ⟨heq₂, hidle₁, hclosed₂⟩ := h₂.idle hidle
      obtain ⟨heq₁, hidle₀, hclosed₁⟩ := h₁.idle hidle₁
      refine ⟨heq₂.trans heq₁, hidle₀, ?_⟩
      rintro id ⟨x, hx, hrest⟩
      rcases List.mem_cons.mp hx with rfl | hx
      · exact hclosed₁ id ⟨x, by simp, hrest⟩
      · exact hclosed₂ id ⟨x, hx, hrest⟩
    · intro hprogress
      rcases h₂.progress hprogress with hprogress₁ | ⟨id, hid, hactive, hdead⟩
      · rcases h₁.progress hprogress₁ with hprogress₀ | ⟨id, hid, hactive, hdead⟩
        · exact .inl hprogress₀
        · exact .inr ⟨id, h₂.keeps hid, hhead id hactive, hdead⟩
      · exact .inr ⟨id, hid, htail id hactive, hdead⟩

/-- The ephemerons of a heap are well formed: the registry lists them all, and their fields
resolve. -/
structure EphemeronsSound (h : Heap) : Prop where
  listed : ∀ slot o, h.objectAt slot = some o → o.payload.kind = .ephemeron →
    ∃ owner ∈ h.ephemerons, h.lookup owner = some o ∧ owner.slot = slot
  valid : ∀ owner ∈ h.ephemerons, ∃ o, h.lookup owner = some o ∧
    ∀ value ∈ o.payload.allFields, h.Valid value

theorem EphemeronsSound.marksOnly {h' : Heap} (he : h.EphemeronsSound) (hm : h.MarksOnly h') :
    h'.EphemeronsSound where
  listed slot o' ho' hkind := by
    obtain ⟨o, ho, hs⟩ := hm.updates.objectAt_symm ho'
    obtain ⟨owner, hmem, hl, hslot⟩ := he.listed slot o ho (hs.payload ▸ hkind)
    obtain ⟨o'', ho'', -⟩ := hm.updates.lookup hl
    refine ⟨owner, by rwa [hm.rest], ?_, hslot⟩
    have hsame := objectAt_of_lookup ho''
    rw [hslot, ho'] at hsame
    rwa [hsame]
  valid owner hmem := by
    rw [hm.rest] at hmem
    obtain ⟨o, ho, hvalid⟩ := he.valid owner hmem
    obtain ⟨o', ho', hs⟩ := hm.updates.lookup ho
    exact ⟨o', ho', fun value hv => hm.updates.valid (hvalid value (hs.payload ▸ hv))⟩

/-- What counts as live is closed under ephemerons. -/
def EphemeronClosed (h : Heap) (kind : CollectionKind) : Prop :=
  ∀ slot o keyId valueId, h.objectAt slot = some o → o.countsAsLive kind = true →
    o.payload = .ephemeron (.object keyId) (.object valueId) true →
      h.NamesLive kind keyId → h.NamesLive kind valueId

@[simp] theorem wp_drainMarkWorklist_nil {Q : Unit → Heap → Prop} {E : HeapError → Heap → Prop} :
    wp (drainMarkWorklist kind []) Q E h ↔ Q () h := Iff.rfl

/-- The values a pass enqueues are live. -/
theorem TracingFrom.activated {worklist worklist' : List ObjectId} {progressed : Bool}
    (ht : TracingFrom kind start live promised h worklist)
    (hgate : ∀ owner key value, live owner → live key → h.EphemeronReference owner key value →
      live value)
    (he : h.EphemeronsSound)
    (ha : h.Activates kind h.ephemerons (worklist, false) (worklist', progressed)) :
    TracingFrom kind start live promised h worklist' := by
  refine ⟨ht.valid, ht.started, ht.closed, ht.sound, fun id hid => ?_, ?_, ?_⟩
  · rcases ha.origin id hid with hid | ⟨owner, hmem, o, keyId, ho, hp, hlive, hkey⟩
    · exact ht.grey id hid
    · obtain ⟨keySlot, keyObject, hkr, hkeyLive⟩ := hkey
      have hobject := objectAt_of_lookup ho
      obtain ⟨o', ho', hvalid⟩ := he.valid owner hmem
      rw [ho] at ho'
      cases ho'
      obtain ⟨slot, valueObject, hr⟩ : h.Resolves id := valid_object.mp
        (hvalid _ (by simp [hp, Payload.allFields, Payload.weakFields]))
      refine ⟨slot, valueObject, hr, hgate owner.slot keySlot slot (ht.sound _ o hobject hlive)
        (ht.sound _ _ (objectAt_of_resolve hkr) hkeyLive) ?_⟩
      exact ⟨o, keyId, id, keyObject, valueObject, hobject, hp, hkr, hr⟩
  · intro slot o ho hlive hnew id hid slot' o' hr
    exact (ht.traces slot o ho hlive hnew id hid slot' o' hr).imp_right fun hmem => ha.keeps hmem
  · exact fun id hid => (ht.promised id hid).imp_left fun hmem => ha.keeps hmem

theorem Tracing.activated {worklist : List ObjectId} {progressed : Bool}
    (ht : Tracing kind live promised h [])
    (hgate : ∀ owner key value, live owner → live key → h.EphemeronReference owner key value →
      live value)
    (he : h.EphemeronsSound)
    (ha : h.Activates kind h.ephemerons ([], false) (worklist, progressed)) :
    Tracing kind live promised h worklist :=
  tracing_iff.mpr ((tracing_iff.mp ht).activated hgate he ha)

/-- The loop of `processEphemeronFixpoint`, without fuel: it leaves the heap `h'`. -/
inductive FixpointRuns (kind : CollectionKind) : List ObjectId → Heap → Heap → Prop
  | settled {worklist worklist' : List ObjectId} {h h' : Heap}
      (hpass : h.ephemerons.foldlM (h.activateEphemeron kind) (worklist, false) =
        .ok (worklist', false))
      (hdrain : Drains kind worklist' h h') : FixpointRuns kind worklist h h'
  | progressed {worklist worklist' : List ObjectId} {h h₁ h' : Heap}
      (hpass : h.ephemerons.foldlM (h.activateEphemeron kind) (worklist, false) =
        .ok (worklist', true))
      (hdrain : Drains kind worklist' h h₁) (hrest : FixpointRuns kind [] h₁ h') :
      FixpointRuns kind worklist h h'

/-- A pass that finds nothing leaves what counts as live closed. -/
theorem Activates.ephemeronClosed {worklist worklist' : List ObjectId} (he : h.EphemeronsSound)
    (ha : h.Activates kind h.ephemerons (worklist, false) (worklist', false)) :
    worklist' = worklist ∧ h.EphemeronClosed kind := by
  obtain ⟨hempty, -, hclosed⟩ := ha.idle rfl
  refine ⟨hempty, ?_⟩
  intro slot o keyId valueId ho hlive hpayload hkey
  obtain ⟨owner, hmem, hl, -⟩ := he.listed slot o ho (by rw [hpayload]; rfl)
  exact hclosed valueId ⟨owner, hmem, o, keyId, hl, hpayload, hlive, hkey⟩

/-- A pass of the fixpoint marks an object or finds what counts as live closed. A pass that finds
it closed is the last, even if objects are still grey. -/
theorem TracingFrom.wp_ephemeronFixpointLoop {fuel : ℕ} {worklist : List ObjectId}
    (ht : TracingFrom kind start live promised h worklist)
    (hgate : ∀ owner key value, live owner → live key → h.EphemeronReference owner key value →
      live value)
    (he : h.EphemeronsSound) (hfuel : h.unmarkedCount < fuel) :
    wp (ephemeronFixpointLoop kind fuel worklist) (fun _ h' => h.MarksOnly h' ∧
      TracingFrom kind start live promised h' [] ∧
      (h'.EphemeronClosed kind ∨ h.EphemeronClosed kind ∧ ∃ id ∈ worklist, ¬h.NamesLive kind id) ∧
      FixpointRuns kind worklist h h') (fun _ _ => False) h := by
  induction fuel generalizing h worklist with
  | zero => omega
  | succ fuel ih =>
    obtain ⟨⟨worklist', progressed⟩, hok, ha⟩ :=
      activateEphemerons_ok kind he.valid (worklist, false)
    unfold ephemeronFixpointLoop
    refine wp_query_ok hok ?_
    rw [wp_bind]
    refine wp_mono (ht.activated hgate he ha).wp_drainMarkWorklist (fun _ h₁ h₁spec => ?_)
      fun _ _ he => he
    obtain ⟨hm₁, ht₂, hcount, hdrains⟩ := h₁spec
    cases progressed with
    | false =>
      obtain ⟨rfl, hclosed⟩ := ha.ephemeronClosed he
      refine ⟨hm₁, ht₂, ?_, .settled hok hdrains⟩
      by_cases hdrained : ∀ id ∈ worklist', h.NamesLive kind id
      · -- everything grey counts as live, so nothing is marked
        obtain ⟨-, id, hmem, hdead⟩ | ⟨rfl, -⟩ := hcount
        · exact absurd (hdrained id hmem) hdead
        · exact .inl hclosed
      · push Not at hdrained
        exact .inr ⟨hclosed, hdrained⟩
    | true =>
      obtain hprogress | ⟨id, hid, -, hdead⟩ := ha.progress rfl
      · exact nomatch hprogress
      have hlt : h₁.unmarkedCount < h.unmarkedCount :=
        (hcount.resolve_right fun hsame => hdead (hsame.2 id hid)).1
      have hgate₁ : ∀ owner key value, live owner → live key →
          h₁.EphemeronReference owner key value → live value := fun owner key value ho hk hr =>
        hgate owner key value ho hk (hm₁.same.ephemeronReference.mp hr)
      refine wp_mono (ih ht₂ hgate₁ (he.marksOnly hm₁) (by omega)) (fun _ h₂ h₂spec => ?_)
        fun _ _ he => he
      obtain ⟨hm₂, ht₃, hclosed, hruns⟩ := h₂spec
      refine ⟨hm₁.trans hm₂, ht₃, .inl ?_, .progressed hok hdrains hruns⟩
      exact hclosed.resolve_right fun ⟨_, id, hmem, _⟩ => List.not_mem_nil hmem

theorem TracingFrom.wp_processEphemeronFixpoint {worklist : List ObjectId}
    (ht : TracingFrom kind start live promised h worklist)
    (hgate : ∀ owner key value, live owner → live key → h.EphemeronReference owner key value →
      live value)
    (he : h.EphemeronsSound) :
    wp (processEphemeronFixpoint kind worklist) (fun _ h' => h.MarksOnly h' ∧
      TracingFrom kind start live promised h' [] ∧
      (h'.EphemeronClosed kind ∨ h.EphemeronClosed kind ∧ ∃ id ∈ worklist, ¬h.NamesLive kind id) ∧
      FixpointRuns kind worklist h h') (fun _ _ => False) h := by
  unfold processEphemeronFixpoint
  rw [wp_bind, wp_get]
  exact ht.wp_ephemeronFixpointLoop hgate he (Nat.lt_succ_of_le h.unmarkedCount_le)

theorem EphemeronClosed.namesLive {owners : List ObjectId} {id : ObjectId}
    (hclosed : h.EphemeronClosed kind) (hid : h.ActiveValue kind owners id) :
    h.NamesLive kind id := by
  obtain ⟨owner, -, o, keyId, ho, hp, hlive, hkey⟩ := hid
  exact hclosed owner.slot o keyId id (objectAt_of_lookup ho) hlive hp hkey

/-- Where what counts as live is closed under ephemerons already, there is one pass, which only
drains the worklist. -/
theorem TracingFrom.wp_processEphemeronFixpoint_closed {worklist : List ObjectId}
    (ht : TracingFrom kind start live promised h worklist) (he : h.EphemeronsSound)
    (hclosed : h.EphemeronClosed kind) :
    wp (processEphemeronFixpoint kind worklist) (fun _ h' => h.MarksOnly h' ∧
      TracingFrom kind start live promised h' [] ∧ FixpointRuns kind worklist h h')
      (fun _ _ => False) h := by
  obtain ⟨⟨worklist', progressed⟩, hok, ha⟩ :=
    activateEphemerons_ok kind he.valid (worklist, false)
  have hidle : progressed = false := by
    cases progressed with
    | false => rfl
    | true =>
      obtain hprogress | ⟨id, -, hactive, hdead⟩ := ha.progress rfl
      · exact nomatch hprogress
      · exact absurd (hclosed.namesLive hactive) hdead
  subst hidle
  obtain ⟨rfl, -⟩ := ha.ephemeronClosed he
  unfold processEphemeronFixpoint ephemeronFixpointLoop
  rw [wp_bind, wp_get]
  refine wp_query_ok hok ?_
  rw [wp_bind]
  refine wp_mono ht.wp_drainMarkWorklist (fun _ h₁ h₁spec => ?_) fun _ _ he => he
  obtain ⟨hm₁, ht₁, -, hdrains⟩ := h₁spec
  exact ⟨hm₁, ht₁, .settled hok hdrains⟩

theorem wp_processEphemeronFixpoint (ht : Tracing kind live promised h [])
    (hgate : ∀ owner key value, live owner → live key → h.EphemeronReference owner key value →
      live value)
    (he : h.EphemeronsSound) :
    wp (processEphemeronFixpoint kind []) (fun _ h' => h.MarksOnly h' ∧
      Tracing kind live promised h' [] ∧ h'.EphemeronClosed kind) (fun _ _ => False) h := by
  refine wp_mono ((tracing_iff.mp ht).wp_processEphemeronFixpoint hgate he)
    (fun _ h' hpost => ?_) fun _ _ he => he
  obtain ⟨hm, ht', hclosed, -⟩ := hpost
  refine ⟨hm, tracing_iff.mpr ht', ?_⟩
  exact hclosed.resolve_right fun ⟨_, id, hmem, _⟩ => List.not_mem_nil hmem

end Fixpoint

/-! ## Marking for a collection -/

section Collection

variable {h : Heap} {kind : CollectionKind}

theorem Sound.ephemeronsSound (hs : h.Sound) : h.EphemeronsSound where
  listed slot o ho hkind := by
    have hl := hs.storage.lookup_currentId ho
    refine ⟨h.currentId slot, (hs.ephemerons.mem _).mpr ⟨o, hl, hkind⟩, hl, ?_⟩
    rw [hs.storage.currentId_eq ho]
  valid owner hmem := by
    obtain ⟨o, ho, -⟩ := (hs.ephemerons.mem owner).mp hmem
    exact ⟨o, ho, hs.fields owner.slot o (objectAt_of_lookup ho)⟩

theorem Sound.referenceFields (hs : h.Sound) {slot : ℕ} {o : Object} (ho : h.objectAt slot = some o) :
    ∀ value ∈ o.payload.referenceFields, h.Valid value := fun value hvalue =>
  hs.fields slot o ho value (List.mem_append_left _ hvalue)

theorem Sound.traceCollectionRoots (hs : h.Sound) {extraRoots : List Value}
    (hextra : ∀ value ∈ extraRoots, h.Valid value) :
    ∀ value ∈ h.traceCollectionRoots extraRoots, h.Valid value := by
  intro value hvalue
  simp only [Heap.traceCollectionRoots, List.mem_append, List.mem_map] at hvalue
  rcases hvalue with (hvalue | ⟨root, hroot, rfl⟩) | hvalue
  · exact hs.cells value hvalue
  · exact hs.handles root hroot
  · exact hextra value hvalue

/-- Nothing but the old objects of a minor collection counts as live before marking. -/
theorem Unmarked.countsAsLive (hu : h.Unmarked) {slot : ℕ} {o : Object}
    (ho : h.objectAt slot = some o) (hlive : o.countsAsLive kind = true) :
    kind = .minor ∧ o.isOld = true := by
  have hmarked := hu slot o ho
  cases kind <;> simp_all [Object.countsAsLive]

/-- The worklist marking starts with. -/
theorem Sound.tracing (hs : h.Sound) (hu : h.Unmarked) {roots values : List Value}
    {worklist : List ObjectId}
    (hq : h.Enqueued kind [] (roots ++ values) worklist)
    (hvalues : ∀ id, .object id ∈ values → ∃ slot o, h.objectAt slot = some o ∧
      o.countsAsLive kind = true ∧ .object id ∈ o.payload.referenceFields)
    (hremembered : kind = .minor → ∀ id ∈ h.rememberedSet, ∀ o, h.lookup id = some o →
      ∀ value ∈ o.payload.referenceFields, value ∈ values)
    (hroots : ∀ value ∈ roots, h.Valid value) :
    Tracing kind (h.Live kind roots) (fun id => .object id ∈ roots) h worklist where
  valid slot o ho := hs.referenceFields ho
  closed _ _ hlive hedge := .edge hlive hedge
  sound slot o ho hlive := by
    obtain ⟨hkind, hold⟩ := hu.countsAsLive ho hlive
    exact .init (.inl ⟨hkind, o, ho, hold⟩)
  grey id hid := by
    rcases hq.origin id hid with hid | hid
    · exact absurd hid List.not_mem_nil
    · rcases List.mem_append.mp hid with hid | hid
      · obtain ⟨slot, o, hr⟩ := valid_object.mp (hroots _ hid)
        exact ⟨slot, o, hr, .init (.inr ⟨id, o, hid, hr⟩)⟩
      · obtain ⟨slot, o, ho, hlive, hmem⟩ := hvalues id hid
        obtain ⟨hkind, hold⟩ := hu.countsAsLive ho hlive
        obtain ⟨slot', o', hr⟩ := valid_object.mp (hs.referenceFields ho _ hmem)
        exact ⟨slot', o', hr, .edge (.init (.inl ⟨hkind, o, ho, hold⟩)) ⟨o, id, o', ho, hmem, hr⟩⟩
  traces slot o ho hlive id hid slot' o' hr := by
    obtain ⟨hkind, hold⟩ := hu.countsAsLive ho hlive
    by_cases hyoung : o'.isYoung = true
    · have hmem := hs.remembers.complete slot o ho hold id hid ⟨slot', o', hr, hyoung⟩
      have hvalue := hremembered hkind _ hmem o (hs.storage.lookup_currentId ho) _ hid
      rcases hq.covers id (List.mem_append_right _ hvalue) with hgrey | ⟨slot'', o'', hr', hlive'⟩
      · exact .inr hgrey
      · rw [hr] at hr'
        cases hr'
        exact .inl hlive'
    · refine .inl ?_
      have hold' : o'.isOld = true := by
        cases hg : o'.generation <;> simp_all [Object.isYoung, Object.isOld]
      simp [Object.countsAsLive, hkind, hold']
  promised id hid := hq.covers id (List.mem_append_left _ hid)

/-- What counts as live once the fixpoint is reached is what is live. -/
theorem Tracing.countsAsLive_iff {h' : Heap} {roots : List Value} (hm : h.MarksOnly h')
    (ht : Tracing kind (h.Live kind roots) (fun id => .object id ∈ roots) h' [])
    (he : h'.EphemeronClosed kind) (slot : ℕ) :
    (∃ o, h'.objectAt slot = some o ∧ o.countsAsLive kind = true) ↔ h.Live kind roots slot := by
  constructor
  · rintro ⟨o, ho, hlive⟩
    exact ht.sound slot o ho hlive
  · intro hlive
    refine Reach.least (P := fun slot => ∃ o, h'.objectAt slot = some o ∧
      o.countsAsLive kind = true) hlive ?_ ?_ ?_
    · rintro slot (⟨hkind, o, ho, hold⟩ | ⟨id, o, hid, hr⟩)
      · obtain ⟨o', ho', hs⟩ := hm.updates.objectAt ho
        exact ⟨o', ho', by simp [Object.countsAsLive, hkind, hs.isOld, hold]⟩
      · obtain ⟨slot', o', hr', hlive'⟩ :=
          (ht.promised id hid).resolve_left List.not_mem_nil
        obtain ⟨o'', hr'', -⟩ := hm.resolve hr
        rw [hr'] at hr''
        cases hr''
        exact ⟨_, objectAt_of_resolve hr', hlive'⟩
    · rintro slot slot' ⟨o, ho, hlive⟩ hedge
      obtain ⟨o₁, id, o', ho₁, hid, hr⟩ := hm.same.strongReference.mpr hedge
      rw [ho] at ho₁
      cases ho₁
      exact ⟨o', objectAt_of_resolve hr,
        (ht.traces slot o ho hlive id hid slot' o' hr).resolve_right List.not_mem_nil⟩
    · rintro owner key value ⟨o, ho, hlive⟩ ⟨k, hk, hklive⟩ hedge
      obtain ⟨o₁, keyId, valueId, k', v', ho₁, hp, hkr, hvr⟩ := hm.same.ephemeronReference.mpr hedge
      rw [ho] at ho₁
      cases ho₁
      have hkobj := objectAt_of_resolve hkr
      rw [hk] at hkobj
      cases hkobj
      obtain ⟨slot', o', hr', hlive'⟩ := he owner o keyId valueId ho hlive hp ⟨key, k, hkr, hklive⟩
      rw [hvr] at hr'
      cases hr'
      exact ⟨_, objectAt_of_resolve hvr, hlive'⟩

/-- Marking for a collection leaves exactly the live objects counted as live. -/
theorem wp_markCollectionRoots (hs : h.Sound) (hu : h.Unmarked) {extraRoots : List Value}
    (hextra : ∀ value ∈ extraRoots, h.Valid value) :
    wp (markCollectionRoots kind extraRoots) (fun _ h' => h.MarksOnly h' ∧ ∀ slot,
      (∃ o, h'.objectAt slot = some o ∧ o.countsAsLive kind = true) ↔
        h.Live kind (h.traceCollectionRoots extraRoots) slot) (fun _ _ => False) h := by
  have hroots := hs.traceCollectionRoots hextra
  obtain ⟨worklist, hok, hq⟩ := enqueueMarkValues_ok kind hroots []
  have hdrain : ∀ worklist', Tracing kind (h.Live kind (h.traceCollectionRoots extraRoots))
      (fun id => .object id ∈ h.traceCollectionRoots extraRoots) h worklist' →
      wp (do drainMarkWorklist kind worklist'; processEphemeronFixpoint kind [])
        (fun _ h' => h.MarksOnly h' ∧ ∀ slot,
          (∃ o, h'.objectAt slot = some o ∧ o.countsAsLive kind = true) ↔
            h.Live kind (h.traceCollectionRoots extraRoots) slot) (fun _ _ => False) h := by
    intro worklist' ht
    rw [wp_bind]
    refine wp_mono (wp_drainMarkWorklist ht) (fun _ h₁ h₁spec => ?_) fun _ _ he => he
    obtain ⟨hm₁, ht₁, -⟩ := h₁spec
    refine wp_mono (wp_processEphemeronFixpoint ht₁ (fun owner key value ho hk hr => ?_)
      (hs.ephemeronsSound.marksOnly hm₁)) (fun _ h₂ h₂spec => ?_) fun _ _ he => he
    · exact .gate ho hk (hm₁.same.ephemeronReference.mp hr)
    · obtain ⟨hm₂, ht₂, hclosed⟩ := h₂spec
      exact ⟨hm₁.trans hm₂, ht₂.countsAsLive_iff (hm₁.trans hm₂) hclosed⟩
  unfold markCollectionRoots
  refine wp_query_ok (f := fun h : Heap => h.enqueueCollectionRoots kind extraRoots) hok ?_
  -- a minor collection scans the remembered set as well
  cases kind with
  | major =>
    have hq' : h.Enqueued .major [] (h.traceCollectionRoots extraRoots ++ []) worklist := by
      rwa [List.append_nil]
    have ht := hs.tracing hu hq' (fun _ hno => by cases hno) (fun hno => by cases hno) hroots
    exact wp_query_ok rfl (hdrain worklist ht)
  | minor =>
    obtain ⟨worklist', hok', hq'⟩ := enqueueYoungReferencesFromRememberedSet_ok
      hs.remembers.old (fun slot o ho => hs.referenceFields ho) worklist
    refine wp_query_ok hok' (hdrain worklist' (hs.tracing hu (hq.append hq') ?_ ?_ hroots))
    · intro id hid
      obtain ⟨remembered, hmem, hid⟩ := List.mem_flatMap.mp hid
      obtain ⟨o, ho, hold⟩ := hs.remembers.old remembered hmem
      rw [strongFieldsOf, ho] at hid
      exact ⟨_, o, objectAt_of_lookup ho, by simp [Object.countsAsLive, hold],
        List.mem_reverse.mp hid⟩
    · intro _ remembered hmem o ho value hvalue
      refine List.mem_flatMap.mpr ⟨remembered, hmem, ?_⟩
      rw [strongFieldsOf, ho]
      exact List.mem_reverse.mpr hvalue

end Collection

end Heap

end LanguageRuntime.Gc
