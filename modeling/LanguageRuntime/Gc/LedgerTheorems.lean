import LanguageRuntime.Gc.Identity

/-!
# Invariants of the ledger

What the heap operations do to slots, generations and identifiers comes down to a few changes of
the ledger. An invariant that these keep is kept by every operation, whether it returns or throws.
-/

namespace LanguageRuntime.Gc

open LanguageRuntime LanguageRuntime.Library Heap

variable {I : Heap → Prop}

/-! ## Invariants of ownership -/

/-- An invariant that depends on which slot belongs to which object alone. -/
structure OwnershipInvariant (I : Heap → Prop) : Prop where
  frame : ∀ {h h' : Heap}, I h → serials h'.objects = serials h.objects →
    h'.generations = h.generations → h'.issued = h.issued → h'.nextSerial = h.nextSerial →
    h.SamePlan h' → I h'
  compacted : ∀ {h h' : Heap}, I h → ∀ {kind : CollectionKind} {r : CompactionResult},
    h.compactLiveObjects kind = .ok r → serials h'.objects = serials r.objects →
    h'.generations = r.generations → h'.issued = r.issued → h'.nextSerial = h.nextSerial →
    h'.phase = .idle → I h'

/-! ## Marking -/

theorem scanNextMarkObject_preserves (hI : OwnershipInvariant I) (kind : CollectionKind) (worklist : List ObjectId) :
    Preserves I (scanNextMarkObject kind worklist) := by
  induction worklist with
  | nil => exact .pure _
  | cons id worklist ih =>
    unfold scanNextMarkObject
    refine .query_bind fun h ⟨slot, object⟩ hh hr => ?_
    refine wp_ite (fun _ => ih h hh) fun _ => wp_ite (fun _ => ih h hh) fun _ => ?_
    rw [wp_bind, wp_modify]
    refine Preserves.bind (.query _) (fun _ => .pure _) _ ?_
    exact hI.frame hh (serials_putObject (objectAt_of_resolve hr) rfl) rfl rfl rfl (.of_eq rfl)

theorem drainMarkLoop_preserves (hI : OwnershipInvariant I) (kind : CollectionKind) (fuel : ℕ) (worklist : List ObjectId) :
    Preserves I (drainMarkLoop kind fuel worklist) := by
  induction fuel generalizing worklist with
  | zero => exact .pure _
  | succ fuel ih =>
    refine .bind (scanNextMarkObject_preserves hI kind worklist) fun next => ?_
    cases next with
    | none => exact .pure _
    | some worklist => exact ih worklist

theorem drainMarkWorklist_preserves (hI : OwnershipInvariant I) (kind : CollectionKind) (worklist : List ObjectId) :
    Preserves I (drainMarkWorklist kind worklist) :=
  .bind .get fun _ => drainMarkLoop_preserves hI kind _ worklist

theorem ephemeronFixpointLoop_preserves (hI : OwnershipInvariant I) (kind : CollectionKind) (fuel : ℕ)
    (worklist : List ObjectId) : Preserves I (ephemeronFixpointLoop kind fuel worklist) := by
  induction fuel generalizing worklist with
  | zero => exact .pure _
  | succ fuel ih =>
    refine .bind (.query _) fun next => ?_
    refine .bind (drainMarkWorklist_preserves hI kind next.1) fun _ => ?_
    exact .ite (ih []) (.pure _)

theorem processEphemeronFixpoint_preserves (hI : OwnershipInvariant I) (kind : CollectionKind)
    (worklist : List ObjectId) : Preserves I (processEphemeronFixpoint kind worklist) :=
  .bind .get fun _ => ephemeronFixpointLoop_preserves hI kind _ worklist

theorem markCollectionRoots_preserves (hI : OwnershipInvariant I) (kind : CollectionKind) (extraRoots : List Value) :
    Preserves I (markCollectionRoots kind extraRoots) := by
  refine .bind (.query _) fun _ => .bind (.query _) fun worklist => ?_
  exact .bind (drainMarkWorklist_preserves hI _ _) fun _ =>
    processEphemeronFixpoint_preserves hI _ _

/-! ## Roots and the remembered set -/

/-- A heap that differs in its root cells and the values of its handles only. -/
def Heap.SameButRoots (h h' : Heap) : Prop :=
  h' = { h with rootCells := h'.rootCells, handleRoots := h'.handleRoots }

theorem OwnershipInvariant.sameButRoots (hI : OwnershipInvariant I) {h h' : Heap} (hh : I h)
    (heq : h.SameButRoots h') : I h' := by
  rw [heq]
  exact hI.frame hh rfl rfl rfl rfl (.of_eq rfl)

theorem wp_rewriteRoots_sameButRoots (f : Value → Except HeapError Value) (extraRoots : List Value)
    (h : Heap) :
    wp (rewriteRoots f extraRoots) (fun _ h' => h.SameButRoots h') (fun _ h' => h.SameButRoots h')
      h := by
  unfold rewriteRoots
  rw [wp_bind, wp_get]
  dsimp only
  rw [wp_bind, wp_set]
  split
  · exact rfl
  · rw [wp_bind, wp_modify]
    split
    · exact rfl
    · split
      · exact rfl
      · exact rfl

theorem rewriteRoots_preserves (hI : OwnershipInvariant I) (f : Value → Except HeapError Value)
    (extraRoots : List Value) : Preserves I (rewriteRoots f extraRoots) := fun h hh =>
  wp_mono (wp_rewriteRoots_sameButRoots f extraRoots h) (fun _ _ h' => hI.sameButRoots hh h')
    fun _ _ h' => hI.sameButRoots hh h'

theorem recordRememberedObject_preserves (hI : OwnershipInvariant I) (id : ObjectId) :
    Preserves I (recordRememberedObject id) := by
  refine .bind (.query _) fun ⟨_, object⟩ => .guard (.modify fun h hh => ?_)
  split
  · exact hh
  · exact hI.frame hh rfl rfl rfl rfl (.of_eq rfl)

theorem recordPromotedObjectEdges_preserves (hI : OwnershipInvariant I) (promotedSlots : List ℕ) :
    Preserves I (recordPromotedObjectEdges promotedSlots) := by
  induction promotedSlots with
  | nil => exact .pure _
  | cons slot promotedSlots ih =>
    unfold recordPromotedObjectEdges
    refine .bind .get fun h => ?_
    dsimp only
    split
    · refine .guard (.bind (.query _) fun found => ?_)
      exact .ite (.bind (recordRememberedObject_preserves hI _) fun _ => ih) ih
    · exact .bind (.throw _) fun _ => ih

theorem pruneRememberedSet_preserves (hI : OwnershipInvariant I) : Preserves I pruneRememberedSet :=
  .bind (.query _) fun _ => .modify fun _ hh => hI.frame hh rfl rfl rfl rfl (.of_eq rfl)

/-! ## Atomic compaction -/

/-! The passes over the moved objects change fields only. -/

theorem serials_rewriteObjects {f : Option Object → Except HeapError (Option Object)}
    {objects objects' : List (Option Object)}
    (hf : ∀ slot slot', f slot = .ok slot' → slot'.map Object.serial = slot.map Object.serial)
    (h : objects.mapM f = .ok objects') : serials objects' = serials objects := by
  have hloop : Yields (objects.mapM f) (List.Forall₂
      (fun slot slot' : Option Object => slot'.map Object.serial = slot.map Object.serial) objects)
      fun _ => True :=
    yields_mapM fun slot _ => yields_iff.mpr ⟨hf slot, fun _ _ => trivial⟩
  have hforall := hloop.of_ok h
  clear hloop h
  induction hforall with
  | nil => rfl
  | cons hhead _ ih =>
    simp only [serials, List.map_cons] at ih ⊢
    rw [hhead, ih]

theorem serial_rewriteObject {h : Heap} {forwarding : ForwardingTable} {slot slot' : Option Object}
    (hr : h.rewriteObject forwarding slot = .ok slot') :
    slot'.map Object.serial = slot.map Object.serial := by
  have hyields : Yields (h.rewriteObject forwarding slot)
      (fun slot' => slot'.map Object.serial = slot.map Object.serial) fun _ => True := by
    cases slot with
    | none => exact rfl
    | some o =>
      unfold rewriteObject
      rw [yields_bind, yields_iff]
      exact ⟨fun _ _ => rfl, fun _ _ => trivial⟩
  exact hyields.of_ok hr

theorem wp_rewriteReferences_identity (forwarding : ForwardingTable)
    (movedObjects : List (Option Object)) (extraRoots : List Value) (h : Heap) :
    wp (rewriteReferences forwarding movedObjects extraRoots)
      (fun r h' => h.SameButRoots h' ∧ serials r.1 = serials movedObjects)
      (fun _ h' => h.SameButRoots h') h := by
  unfold rewriteReferences
  rw [wp_bind, wp_get, wp_bind]
  refine wp_mono (wp_rewriteRoots_sameButRoots _ _ _) (fun extraRoots h' hh' => ?_) fun _ _ hh' => hh'
  rw [wp_bind, wp_query, yields_iff]
  refine ⟨fun movedObjects' hmoved => ?_, fun _ _ => hh'⟩
  exact ⟨hh', serials_rewriteObjects (fun _ _ => serial_rewriteObject) hmoved⟩

theorem serials_processWeakTargets {h : Heap} {forwarding : ForwardingTable}
    {objects : List (Option Object)} {result : List (Option Object) × List ObjectId}
    (hr : h.processWeakTargets forwarding objects = .ok result) :
    serials result.1 = serials objects := by
  have hstep : ∀ (state : List (Option Object) × List ObjectId) (oldOwner : ObjectId),
      serials state.1 = serials objects →
      Yields (h.processWeakTarget forwarding state oldOwner)
        (fun state' => serials state'.1 = serials objects) fun _ => True := by
    intro state oldOwner hstate
    unfold processWeakTarget
    rw [yields_bind, yields_iff]
    refine ⟨fun newOwner _ => ?_, fun _ _ => trivial⟩
    cases newOwner with
    | none => exact hstate
    | some newOwner =>
      dsimp only
      split
      · next o ho =>
        have hset := serials_set_some (o.forwardWeakTarget (h.forwardId? forwarding)) ho rfl
        split
        · split
          · rw [yields_bind, yields_iff]
            exact ⟨fun _ _ => hset.trans hstate, fun _ _ => trivial⟩
          · exact hset.trans hstate
        · trivial
      · trivial
  have hloop : Yields (h.processWeakTargets forwarding objects)
      (fun result => serials result.1 = serials objects) fun _ => True := by
    unfold processWeakTargets
    rw [yields_bind]
    refine (yields_foldlM (P := fun _ state => serials state.1 = serials objects) _ [] rfl
      fun _ oldOwner state _ hs => hstep state oldOwner hs).mono (fun state hstate => ?_)
      fun _ _ => trivial
    split
    · trivial
    · exact hstate
  exact hloop.of_ok hr

theorem serials_processEphemerons {h : Heap} {forwarding : ForwardingTable}
    {objects : List (Option Object)} {result : List (Option Object) × List ObjectId}
    (hr : h.processEphemerons forwarding objects = .ok result) :
    serials result.1 = serials objects := by
  have hstep : ∀ (state : List (Option Object) × List ObjectId) (oldOwner : ObjectId),
      serials state.1 = serials objects →
      Yields (h.processEphemeron forwarding state oldOwner)
        (fun state' => serials state'.1 = serials objects) fun _ => True := by
    intro state oldOwner hstate
    unfold processEphemeron
    rw [yields_bind, yields_iff]
    refine ⟨fun newOwner _ => ?_, fun _ _ => trivial⟩
    cases newOwner with
    | none => exact hstate
    | some newOwner =>
      dsimp only
      split
      · next o ho =>
        have hset := serials_set_some (o.forwardEphemeron (h.forwardId? forwarding)) ho rfl
        rw [yields_bind, yields_iff]
        exact ⟨fun _ _ => hset.trans hstate, fun _ _ => trivial⟩
      · exact hstate
  have hloop : Yields (h.processEphemerons forwarding objects)
      (fun result => serials result.1 = serials objects) fun _ => True :=
    yields_foldlM
      (P := fun _ (state : List (Option Object) × List ObjectId) => serials state.1 = serials objects)
      _ [] rfl fun _ oldOwner state _ hs => hstep state oldOwner hs
  exact hloop.of_ok hr

theorem compactMarkedObjects_preserves (hI : OwnershipInvariant I) (kind : CollectionKind) (extraRoots : List Value) :
    Preserves I (compactMarkedObjects kind extraRoots) := by
  refine .query_bind fun h r hh hr => ?_
  rw [wp_bind]
  refine wp_mono (wp_rewriteReferences_identity _ _ _ h)
    (fun ⟨movedObjects, extraRoots⟩ h' ⟨hsame, hmoved⟩ => ?_) fun _ _ hsame => hI.sameButRoots hh hsame
  have hh' := hI.sameButRoots hh hsame
  refine wp_query_bind (fun rememberedSet _ => ?_) fun _ _ => hh'
  refine wp_query_bind (fun ⟨movedObjects', weakRefs⟩ hweak => ?_) fun _ _ => hh'
  refine wp_query_bind (fun internTable _ => ?_) fun _ _ => hh'
  refine wp_query_bind (fun ⟨movedObjects'', ephemerons⟩ hephemerons => ?_) fun _ _ => hh'
  rw [wp_bind, wp_modify]
  refine Preserves.bind (recordPromotedObjectEdges_preserves hI _) (fun _ =>
    .bind (pruneRememberedSet_preserves hI) fun _ => .bind (.query _) fun _ => .pure _) _ ?_
  rw [hsame]
  refine hI.compacted hh hr ?_ rfl rfl rfl rfl
  exact (serials_processEphemerons hephemerons).trans
    ((serials_processWeakTargets hweak).trans hmoved)

/-! ## Incremental marking -/

theorem modify_phase_preserves (hI : OwnershipInvariant I) {f : Heap → Phase} (hf : ∀ h c, f h ≠ .compacting c) :
    Preserves I (modify fun h => { h with phase := f h } : HeapM PUnit) :=
  .modify fun h hh => hI.frame hh rfl rfl rfl rfl (.of_not_compacting (hf h))

theorem startIncrementalMarking_preserves (hI : OwnershipInvariant I) : Preserves I startIncrementalMarking := by
  refine .bind .get fun h => .guard (.guard (.bind (.query _) fun _ => .bind (.query _) fun _ => ?_))
  exact modify_phase_preserves hI fun _ _ => nofun

theorem incrementalMarkLoop_preserves (hI : OwnershipInvariant I) (budget : ℕ) (worklist : List ObjectId) :
    Preserves I (incrementalMarkLoop budget worklist) := by
  induction budget generalizing worklist with
  | zero => exact .pure _
  | succ budget ih =>
    refine .bind (scanNextMarkObject_preserves hI _ _) fun next => ?_
    cases next with
    | none => exact .bind (modify_phase_preserves hI fun _ _ => nofun) fun _ => .pure _
    | some worklist =>
      refine .bind (modify_phase_preserves hI fun _ _ => nofun) fun _ => ?_
      exact .bind (ih worklist) fun _ => .pure _

theorem incrementalMarkStep_preserves (hI : OwnershipInvariant I) (budget : ℕ) :
    Preserves I (incrementalMarkStep budget) := by
  refine .bind .get fun h => ?_
  split
  · refine .bind (incrementalMarkLoop_preserves hI _ _) fun _ => ?_
    exact .bind (.query _) fun _ => .pure _
  · exact .throw _

theorem clearMarks_preserves (hI : OwnershipInvariant I) : Preserves I (modify Heap.clearMarks : HeapM PUnit) :=
  .modify fun h hh => hI.frame hh (serials_clearMarks h) rfl rfl rfl (.of_eq rfl)

theorem finishIncrementalMarkingLiveness_preserves (hI : OwnershipInvariant I) (extraRoots : List Value) :
    Preserves I (finishIncrementalMarkingLiveness extraRoots) := by
  refine .bind .get fun h => .guard (.bind (.query _) fun _ => ?_)
  refine .bind (clearMarks_preserves hI) fun _ => ?_
  refine .bind (modify_phase_preserves hI fun _ _ => nofun) fun _ => ?_
  exact .bind (markCollectionRoots_preserves hI _ _) fun _ => .query _

theorem finishIncrementalMarkingImpl_preserves (hI : OwnershipInvariant I) (extraRoots : List Value) :
    Preserves I (finishIncrementalMarkingImpl extraRoots) :=
  .bind (finishIncrementalMarkingLiveness_preserves hI _) fun _ =>
    compactMarkedObjects_preserves hI _ _

/-! ## Opening an incremental compaction -/

/-- Rewriting an object in its slot keeps the invariant. -/
def KeptByRewrites (I : Heap → Prop) : Prop := ∀ {h : Heap} {slot : ℕ} {o o' : Object},
  I h → h.objectAt slot = some o → o'.serial = o.serial → I (h.putObject slot o')

theorem sweepWeakRefs_preserves (hI : KeptByRewrites I) (weakRefs : List ObjectId) :
    Preserves I (sweepWeakRefs weakRefs) := by
  induction weakRefs with
  | nil => exact .pure _
  | cons ownerId weakRefs ih =>
    apply Preserves.query_bind
    intro h ⟨slot, owner⟩ hh hr
    have hput : I (h.putObject slot (owner.forwardWeakTarget fun _ => none)) :=
      hI hh (objectAt_of_resolve hr) (Object.serial_forwardWeakTarget (fun _ => none) owner)
    have hrest : Preserves I ((fun rest => ownerId :: rest) <$> sweepWeakRefs weakRefs) := .map ih
    apply wp_ite
    · exact fun _ => ih h hh
    intro _
    split
    · apply wp_query_bind
      · intro ⟨_, target⟩ _
        apply wp_ite
        · intro _
          rw [wp_bind, wp_modify]
          exact hrest _ hput
        · exact fun _ => hrest h hh
      · exact fun _ _ => hh
    · exact hrest h hh

theorem sweepEphemerons_preserves (hI : KeptByRewrites I) (ephemerons : List ObjectId) :
    Preserves I (sweepEphemerons ephemerons) := by
  induction ephemerons with
  | nil => exact .pure _
  | cons ownerId ephemerons ih =>
    apply Preserves.query_bind
    intro h ⟨slot, owner⟩ hh hr
    have hput : I (h.putObject slot (owner.forwardEphemeron fun _ => none)) :=
      hI hh (objectAt_of_resolve hr) (Object.serial_forwardEphemeron (fun _ => none) owner)
    have hrest : Preserves I ((fun rest => ownerId :: rest) <$> sweepEphemerons ephemerons) :=
      .map ih
    apply wp_ite
    · exact fun _ => ih h hh
    intro _
    split
    · apply wp_query_bind
      · intro ⟨_, key⟩ _
        apply wp_ite
        · intro _
          rw [wp_bind, wp_modify]
          exact hrest _ hput
        · exact fun _ => hrest h hh
      · exact fun _ _ => hh
    · exact hrest h hh

/-! ## Invariants of the ledger -/

/-- An incremental compaction opened on the swept heap. -/
def Heap.openCompaction (h : Heap) (planned : CompactionPlan) : Heap :=
  { h with phase := .compacting {
    plan := planned.plan
    cursor := 0
    forwarding := List.replicate h.objects.length none
    sourceIds := planned.sourceIds
    shadowObjects := h.objects
    shadowGenerations := h.generations
    shadowWeakRefs := h.weakRefs
    shadowInternTable := h.internTable
    shadowEphemerons := h.ephemerons } }

/-- An invariant of ownership that each change of the ledger keeps: objects leave, a plan opens an
incremental compaction, an entry of the plan is executed, slots are reserved and an object is
installed in them. -/
structure LedgerInvariant (I : Heap → Prop) : Prop extends OwnershipInvariant I where
  evict : ∀ {h h' : Heap}, I h → h'.objects.length = h.objects.length →
    (∀ slot k, (serials h'.objects).getD slot none = some k →
      (serials h.objects).getD slot none = some k) →
    h'.generations = h.generations → h'.issued = h.issued → h'.nextSerial = h.nextSerial →
    h.SamePlan h' → I h'
  opened : ∀ {h₀ h : Heap} {planned : CompactionPlan}, I h₀ →
    h₀.planIncrementalCompaction = .ok planned → I h → h.generations = h₀.generations →
    h.objects.length = h₀.objects.length → I (h.openCompaction planned)
  moved : ∀ {h : Heap} {c : IncrementalCompaction} {entry : IncrementalCompactionEntry}
    {o : Object}, I h → h.phase = .compacting c → c.plan[c.cursor]? = some entry →
    h.resolve entry.sourceId = .ok (entry.sourceSlot, o) → I (h.moveEntry c entry o)
  reserved : ∀ {h : Heap} {size : ℕ}, I h →
    (h.objects.length ≤ slotNumbers → size ≤ slotNumbers) → I (h.resize size)
  installed : ∀ {h : Heap} (descriptor : Descriptor) {baseSlot generation : ℕ}, I h →
    baseSlot < h.objects.length → h.generationAt baseSlot < generation →
    (∀ c, h.phase ≠ .compacting c) → I (h.installObject descriptor baseSlot generation)

/-- The invariant, on heaps with the slots and generations the plan was made for. -/
def PlannedFor (I : Heap → Prop) (generations : List ℕ) (length : ℕ) (h : Heap) : Prop :=
  I h ∧ h.generations = generations ∧ h.objects.length = length

section Planned

variable {generations : List ℕ} {length slot : ℕ} {h h' : Heap} {o o' : Object}

theorem PlannedFor.putObject (hI : OwnershipInvariant I) (hh : PlannedFor I generations length h)
    (ho : h.objectAt slot = some o) (hserial : o'.serial = o.serial) :
    PlannedFor I generations length (h.putObject slot o') :=
  ⟨hI.frame hh.1 (serials_putObject ho hserial) rfl rfl rfl (.of_eq rfl), hh.2.1,
    (length_objects_putObject h slot o').trans hh.2.2⟩

theorem sweepObjects_plannedFor (hI : LedgerInvariant I) (hh : PlannedFor I generations length h) :
    PlannedFor I generations length h.sweepObjects := by
  refine ⟨hI.evict hh.1 (by simp [sweepObjects]) ?_ rfl rfl rfl (.of_eq rfl), hh.2.1,
    by simpa [sweepObjects] using hh.2.2⟩
  intro slot k hk
  rw [serials, getD_map_option] at hk ⊢
  have hswept := objectAt_sweepObjects h slot
  unfold objectAt at hswept
  rw [hswept] at hk
  cases ho : h.objects.getD slot none with
  | none =>
    rw [ho] at hk
    cases hk
  | some o =>
    rw [ho, Option.bind_some] at hk
    split at hk
    · exact hk
    · cases hk

theorem PlannedFor.frame (hI : OwnershipInvariant I) (hh : PlannedFor I generations length h)
    (hobjects : h'.objects = h.objects) (hgenerations : h'.generations = h.generations)
    (hissued : h'.issued = h.issued) (hserial : h'.nextSerial = h.nextSerial)
    (hphase : h'.phase = h.phase) : PlannedFor I generations length h' :=
  ⟨hI.frame hh.1 (by rw [hobjects]) hgenerations hissued hserial (.of_eq hphase),
    hgenerations.trans hh.2.1, by rw [hobjects, hh.2.2]⟩

end Planned

theorem prepareIncrementalCompactionFromMarked_preserves (hI : LedgerInvariant I) :
    Preserves I prepareIncrementalCompactionFromMarked := by
  have hO := hI.toOwnershipInvariant
  refine .query_bind fun h₀ planned hh₀ hplan => ?_
  let J := PlannedFor I h₀.generations h₀.objects.length
  have hweaken : ∀ (e : HeapError) (h : Heap), J h → I h := fun _ _ hh => hh.1
  have hweakRefs : ∀ weakRefs,
      Preserves J (modify fun h => { h with weakRefs := weakRefs } : HeapM PUnit) := fun _ =>
    .modify fun _ hh => hh.frame hO rfl rfl rfl rfl rfl
  have hinternTable : ∀ internTable,
      Preserves J (modify fun h => { h with internTable := internTable } : HeapM PUnit) := fun _ =>
    .modify fun _ hh => hh.frame hO rfl rfl rfl rfl rfl
  have hephemerons : ∀ ephemerons,
      Preserves J (modify fun h => { h with ephemerons := ephemerons } : HeapM PUnit) := fun _ =>
    .modify fun _ hh => hh.frame hO rfl rfl rfl rfl rfl
  have hrememberedSet : ∀ rememberedSet,
      Preserves J (modify fun h => { h with rememberedSet := rememberedSet } : HeapM PUnit) := fun _ =>
    .modify fun _ hh => hh.frame hO rfl rfl rfl rfl rfl
  have hput : KeptByRewrites J := fun hh ho hserial => PlannedFor.putObject hO hh ho hserial
  have hstart : J h₀ := ⟨hh₀, rfl, rfl⟩
  refine Preserves.get.wp_bind hstart (fun h _ hh => ?_) hweaken
  refine (sweepWeakRefs_preserves hput _).wp_bind hh (fun weakRefs _ hh => ?_) hweaken
  refine (hweakRefs weakRefs).wp_bind hh (fun _ _ hh => ?_) hweaken
  refine (Preserves.query _).wp_bind hh (fun internTable _ hh => ?_) hweaken
  refine (hinternTable internTable).wp_bind hh (fun _ _ hh => ?_) hweaken
  refine Preserves.get.wp_bind hh (fun h _ hh => ?_) hweaken
  refine (sweepEphemerons_preserves hput _).wp_bind hh (fun ephemerons _ hh => ?_) hweaken
  refine (hephemerons ephemerons).wp_bind hh (fun _ _ hh => ?_) hweaken
  refine (Preserves.query _).wp_bind hh (fun rememberedSet _ hh => ?_) hweaken
  refine (hrememberedSet rememberedSet).wp_bind hh (fun _ _ hh => ?_) hweaken
  refine (Preserves.modify fun _ hh => sweepObjects_plannedFor hI hh).wp_bind hh (fun _ h₁ hh => ?_)
    hweaken
  rw [wp_bind, wp_modify]
  exact Preserves.query _ _ (hI.opened hh₀ hplan hh.1 hh.2.1 hh.2.2)

theorem incrementalCompactEntry_preserves (hI : LedgerInvariant I) {h : Heap}
    {c : IncrementalCompaction} {entry : IncrementalCompactionEntry} (extraRoots : List Value)
    (hh : I h) (hc : h.phase = .compacting c) (hentry : c.plan[c.cursor]? = some entry) :
    wp (incrementalCompactEntry c entry extraRoots) (fun _ => I) (fun _ => I) h := by
  have hO := hI.toOwnershipInvariant
  refine wp_query_bind (fun ⟨sourceSlot, object⟩ hr => ?_) fun _ _ => hh
  rw [wp_bind, wp_get]
  refine wp_ite (fun _ => (wp_bind _ _).mpr hh) fun hsource => ?_
  refine wp_ite (fun _ => (wp_bind _ _).mpr hh) fun _ => ?_
  refine wp_ite (fun _ => (wp_bind _ _).mpr hh) fun _ => ?_
  refine wp_ite (fun _ => (wp_bind _ _).mpr hh) fun _ => ?_
  obtain rfl : sourceSlot = entry.sourceSlot := Decidable.not_not.mp hsource
  have hmoved := hI.moved hh hc hentry hr
  have hrest : Preserves I (do
      let h ← get
      let extraRoots ← rewriteRoots (h.rewriteIncrementalCompactionValue false) extraRoots
      modify (·.forwardRegistries entry)
      if object.isYoung then recordPromotedObjectEdges [entry.destinationSlot]
      HeapM.query (·.validateAfterCollection extraRoots)
      return extraRoots : HeapM (List Value)) := by
    refine .bind .get fun _ => .bind (rewriteRoots_preserves hO _ _) fun _ => ?_
    refine .bind (.modify fun _ hh => hO.frame hh rfl rfl rfl rfl (.of_eq rfl)) fun _ => ?_
    refine .ite (.bind (recordPromotedObjectEdges_preserves hO _) fun _ => ?_) ?_
    all_goals exact .bind (.query _) fun _ => .pure _
  rw [wp_bind, wp_set]
  exact hrest _ hmoved

theorem incrementalCompactLoop_preserves (hI : LedgerInvariant I) (budget : ℕ)
    (extraRoots : List Value) : Preserves I (incrementalCompactLoop budget extraRoots) := by
  induction budget generalizing extraRoots with
  | zero => exact .pure _
  | succ budget ih =>
    refine .get_bind fun h hh => ?_
    split
    · next c hc =>
      split
      · next entry hentry =>
        rw [wp_bind]
        refine wp_mono (incrementalCompactEntry_preserves hI extraRoots hh hc hentry)
          (fun extraRoots h' hh' => ?_) fun _ _ hh' => hh'
        exact Preserves.bind (ih extraRoots) (fun _ => .pure _) h' hh'
      · exact hh
    · exact hh

theorem incrementalCompactStepImpl_preserves (hI : LedgerInvariant I) (budget : ℕ)
    (extraRoots : List Value) : Preserves I (incrementalCompactStepImpl budget extraRoots) := by
  refine .bind .get fun h => .guard (.bind (incrementalCompactLoop_preserves hI _ _) ?_)
  rintro ⟨consumed, extraRoots⟩
  exact .ite (.bind (.query _) fun _ => .pure _) (.pure _)

/-! ## The end of an incremental compaction -/

theorem serial_finalRewriteObject {h : Heap} {slot slot' : Option Object}
    (hr : h.finalRewriteObject slot = .ok slot') :
    slot'.map Object.serial = slot.map Object.serial := by
  have hyields : Yields (h.finalRewriteObject slot)
      (fun slot' => slot'.map Object.serial = slot.map Object.serial) fun _ => True := by
    cases slot with
    | none => exact rfl
    | some o =>
      unfold finalRewriteObject
      rw [yields_bind, yields_iff]
      exact ⟨fun _ _ => rfl, fun _ _ => trivial⟩
  exact hyields.of_ok hr

/-- Ends with the invariant and, when it returns, outside incremental compaction. -/
def LeavesCompaction (I : Heap → Prop) {α : Type} (m : HeapM α) : Prop :=
  ∀ h, I h → wp m (fun _ h' => I h' ∧ ∀ c, h'.phase ≠ .compacting c) (fun _ => I) h

theorem LeavesCompaction.preserves {α : Type} {m : HeapM α} (hm : LeavesCompaction I m) :
    Preserves I m := fun h hh => wp_mono (hm h hh) (fun _ _ hh' => hh'.1) fun _ _ hh' => hh'

theorem finalizeIncrementalCompaction_leavesCompaction (hI : OwnershipInvariant I)
    (extraRoots : List Value) : LeavesCompaction I (finalizeIncrementalCompaction extraRoots) := by
  intro h hh
  have hsame : ∀ (e : HeapError) (h : Heap), I h → I h := fun _ _ hh => hh
  refine Preserves.get.wp_bind hh (fun h₀ h hh => ?_) hsame
  refine wp_ite (fun _ => (wp_bind _ _).mpr hh) fun _ => ?_
  refine (rewriteRoots_preserves hI _ _).wp_bind hh (fun extraRoots h hh => ?_) hsame
  refine wp_query_bind (fun objects hobjects => ?_) fun _ _ => hh
  rw [wp_bind, wp_modify]
  have hh₁ : I { h with objects := objects } :=
    hI.frame hh (serials_rewriteObjects (fun _ _ => serial_finalRewriteObject) hobjects) rfl rfl rfl
      (.of_eq rfl)
  refine (pruneRememberedSet_preserves hI).wp_bind hh₁ (fun _ h hh => ?_) hsame
  refine (Preserves.query _).wp_bind hh (fun _ h hh => ?_) hsame
  refine (Preserves.query _).wp_bind hh (fun _ h hh => ?_) hsame
  rw [wp_bind, wp_modify]
  have hh₂ : I { h with phase := .idle } :=
    hI.frame hh rfl rfl rfl rfl (.of_not_compacting nofun)
  exact wp_query_bind (fun _ _ => ⟨hh₂, nofun⟩) fun _ _ => hh₂

theorem finishIncrementalCompactionImpl_leavesCompaction (hI : LedgerInvariant I)
    (extraRoots : List Value) : LeavesCompaction I (finishIncrementalCompactionImpl extraRoots) := by
  have hO := hI.toOwnershipInvariant
  intro h hh
  refine Preserves.get.wp_bind hh (fun h₀ h hh => ?_) fun _ _ hh => hh
  split
  · refine wp_ite (fun _ => ?_) fun _ => ?_
    · refine Preserves.wp_bind (.map (incrementalCompactStepImpl_preserves hI _ _)) hh
        (fun extraRoots h hh => ?_) fun _ _ hh => hh
      exact finalizeIncrementalCompaction_leavesCompaction hO extraRoots h hh
    · exact finalizeIncrementalCompaction_leavesCompaction hO extraRoots h hh
  · exact hh

theorem finishIncrementalCompactionImpl_preserves (hI : LedgerInvariant I)
    (extraRoots : List Value) : Preserves I (finishIncrementalCompactionImpl extraRoots) :=
  (finishIncrementalCompactionImpl_leavesCompaction hI extraRoots).preserves

/-! ## Collections -/

theorem finishIncrementalPhase_preserves (hI : OwnershipInvariant I)
    (hfinish : ∀ cells, Preserves I (finishActiveCompaction cells)) (extraRoots : List Value) :
    Preserves I (finishIncrementalPhase extraRoots) :=
  .bind (hfinish _) fun _ =>
    .bind .get fun _ => .ite (finishIncrementalMarkingImpl_preserves hI _) (.pure _)

theorem collectImpl_preserves (hI : OwnershipInvariant I)
    (hfinish : ∀ cells, Preserves I (finishActiveCompaction cells)) (kind : CollectionKind)
    (extraRoots : List Value) : Preserves I (collectImpl kind extraRoots) :=
  .bind (finishIncrementalPhase_preserves hI hfinish _) fun _ => .bind (.query _) fun _ =>
    .bind (markCollectionRoots_preserves hI _ _) fun _ =>
      compactMarkedObjects_preserves hI _ _

/-! ## Allocation -/

/-- The walk finds a run that starts inside the heap. -/
theorem freeRunLoop_lt {h : Heap} {requiredSlots fuel base start length slot : ℕ}
    (hstart : length ≠ 0 → start < h.objects.length)
    (hslot : h.freeRunLoop requiredSlots fuel base start length = some slot) :
    slot < h.objects.length := by
  induction fuel generalizing base start length with
  | zero => exact nomatch hslot
  | succ fuel ih =>
    unfold freeRunLoop at hslot
    split at hslot
    · next hbase =>
      split at hslot
      · exact ih (fun h => absurd rfl h) hslot
      · have hstart' : (if length = 0 then base else start) < h.objects.length := by
          split
          · exact hbase
          · next hne => exact hstart hne
        dsimp only at hslot
        split at hslot
        · cases hslot
          exact hstart'
        · exact ih (fun _ => hstart') hslot
    · exact nomatch hslot

theorem findFreeStorageRun_lt {h : Heap} {requiredSlots slot : ℕ}
    (hslot : h.findFreeStorageRun requiredSlots = some slot) : slot < h.objects.length :=
  freeRunLoop_lt (fun h => absurd rfl h) hslot

theorem slot_reserveStorageRun (hI : LedgerInvariant I) (requiredSlots : ℕ) (h : Heap)
    (hrequired : 0 < requiredSlots) (hh : I h) :
    wp (reserveStorageRun requiredSlots)
      (fun base h' => I h' ∧ base < h'.objects.length ∧ h'.phase = h.phase) (fun _ => I) h := by
  unfold reserveStorageRun
  rw [wp_bind, wp_get]
  split
  · next base hbase => exact ⟨hh, findFreeStorageRun_lt hbase, rfl⟩
  · refine wp_ite (fun _ => (wp_bind _ _).mpr hh) fun hroom => ?_
    rw [wp_bind, wp_set]
    refine ⟨hI.reserved hh fun hsize => ?_, ?_, rfl⟩
    · rw [slotsLeft_eq hsize] at hroom
      omega
    · rw [length_objects_resize]
      omega

theorem placeObject_preserves (hI : LedgerInvariant I) (payload : Payload) {h : Heap} (hh : I h)
    (hphase : ∀ c, h.phase ≠ .compacting c) :
    wp (placeObject payload) (fun _ => I) (fun _ => I) h := by
  refine wp_query_bind (fun descriptor _ => ?_) fun _ _ => hh
  rw [wp_bind]
  refine wp_mono (slot_reserveStorageRun hI _ h descriptor.val.storageSlotCount_pos hh)
    (fun baseSlot h' ⟨hh', hbase, hphase'⟩ => ?_) fun _ _ hh' => hh'
  refine wp_query_bind (fun generation hgeneration => ?_) fun _ _ => hh'
  rw [wp_bind, wp_modify]
  exact hI.installed descriptor hh' hbase (lt_of_generationForNewBase hgeneration) (hphase' ▸ hphase)

theorem allocateObject_preserves (hI : LedgerInvariant I) (descriptor : Descriptor) :
    Preserves I (allocateObject descriptor) := by
  refine .get_bind fun h hh => wp_ite (fun _ => ?_) fun hinactive => ?_
  · rw [wp_bind]
    refine wp_mono (finishIncrementalCompactionImpl_leavesCompaction hI _ h hh)
      (fun fields h' ⟨hh', hphase⟩ => ?_) fun _ _ hh' => hh'
    exact placeObject_preserves hI _ hh' hphase
  · refine placeObject_preserves hI _ hh fun c hc => hinactive ?_
    rw [incrementalCompactionActive, hc]

/-- An invariant of ownership that the compaction phase and the allocator keep as well. -/
structure HeapInvariant (I : Heap → Prop) : Prop extends OwnershipInvariant I where
  prepare : Preserves I prepareIncrementalCompactionFromMarked
  compactStep : ∀ budget extraRoots, Preserves I (incrementalCompactStepImpl budget extraRoots)
  finish : ∀ extraRoots, Preserves I (finishIncrementalCompactionImpl extraRoots)
  allocate : ∀ descriptor, Preserves I (allocateObject descriptor)

theorem LedgerInvariant.heapInvariant (hI : LedgerInvariant I) : HeapInvariant I where
  toOwnershipInvariant := hI.toOwnershipInvariant
  prepare := prepareIncrementalCompactionFromMarked_preserves hI
  compactStep := incrementalCompactStepImpl_preserves hI
  finish := finishIncrementalCompactionImpl_preserves hI
  allocate := allocateObject_preserves hI

theorem HeapInvariant.finishActive (hI : HeapInvariant I) (extraRoots : List Value) :
    Preserves I (finishActiveCompaction extraRoots) :=
  .bind .get fun _ => .ite (hI.finish _) (.pure _)

theorem HeapInvariant.collect (hI : HeapInvariant I) (kind : CollectionKind)
    (extraRoots : List Value) : Preserves I (collectImpl kind extraRoots) :=
  collectImpl_preserves hI.toOwnershipInvariant hI.finishActive _ _

theorem startIncrementalCompaction_preserves (hI : HeapInvariant I) :
    Preserves I startIncrementalCompaction := by
  refine .bind .get fun h => .guard (.guard (.bind (.query _) fun _ => ?_))
  exact .bind (markCollectionRoots_preserves hI.toOwnershipInvariant _ _) fun _ => hI.prepare

theorem finishIncrementalMarkingToIncrementalCompaction_preserves (hI : HeapInvariant I) :
    Preserves I finishIncrementalMarkingToIncrementalCompaction :=
  .bind (finishIncrementalMarkingLiveness_preserves hI.toOwnershipInvariant _) fun _ =>
    .bind (modify_phase_preserves hI.toOwnershipInvariant fun _ _ => nofun) fun _ => hI.prepare

theorem collectBeforeAllocation_preserves (hI : HeapInvariant I) (operands : List Value) :
    Preserves I (collectBeforeAllocation operands) :=
  .bind .get fun _ => .ite (hI.collect .major _) (.pure _)

theorem collectAfterAllocation_preserves (hI : HeapInvariant I) (id : ObjectId) :
    Preserves I (collectAfterAllocation id) := by
  refine .bind .get fun _ => .ite (.bind (hI.collect .major _) ?_) (.pure _)
  intro cells
  split
  · exact .pure _
  · exact .throw _

theorem allocateDescriptor_preserves (hI : HeapInvariant I) (descriptor : Except HeapError Descriptor) :
    Preserves I (allocateDescriptor descriptor) :=
  .bind (.query _) fun _ => .bind (hI.allocate _) fun _ =>
    collectAfterAllocation_preserves hI _

/-- What every allocator does: a collection before, the construction, a collection after. -/
theorem allocate_preserves (hI : HeapInvariant I) (operands : List Value)
    (descriptor : List Value → Except HeapError Descriptor) :
    Preserves I (do
      let operands ← collectBeforeAllocation operands
      allocateDescriptor (descriptor operands)) :=
  .bind (collectBeforeAllocation_preserves hI _) fun _ => allocateDescriptor_preserves hI _

theorem builderToString_preserves (hI : HeapInvariant I) (builder : Value) :
    Preserves I (builderToString builder) :=
  .bind (.query _) fun _ => .bind (.query _) fun _ =>
    .bind (hI.finishActive _) fun _ =>
      .bind (collectBeforeAllocation_preserves hI _) fun _ => .bind (.query _) fun _ =>
        .bind (.query _) fun _ => allocateDescriptor_preserves hI _

theorem allocateStringConcat_preserves (hI : HeapInvariant I) (left right : Value) :
    Preserves I (allocateStringConcat left right) :=
  .bind (.query _) fun _ => .bind (.query _) fun _ =>
    .bind (collectBeforeAllocation_preserves hI _) fun _ => .bind (.query _) fun _ =>
      .bind (.query _) fun _ => .guard (allocateDescriptor_preserves hI _)

theorem shadeInterned_preserves (hI : HeapInvariant I) (existing : ObjectId) :
    Preserves I (shadeInterned existing) := by
  refine .bind .get fun h => ?_
  split
  · exact .bind (.query _) fun _ => modify_phase_preserves hI.toOwnershipInvariant fun _ _ => nofun
  · exact .pure _

theorem internNewString_preserves (hI : HeapInvariant I) (source : ObjectId) (contentHash : UInt64) :
    Preserves I (internNewString source contentHash) := by
  refine .bind (collectBeforeAllocation_preserves hI _) fun _ => .bind (.query _) fun _ => ?_
  refine .bind (allocateDescriptor_preserves hI _) fun _ => .bind (.modify ?_) fun _ => ?_
  · exact fun _ hh => hI.frame hh rfl rfl rfl rfl (.of_eq rfl)
  · exact .bind (.query _) fun _ => .pure _

theorem internString_preserves (hI : HeapInvariant I) (source : Value) : Preserves I (internString source) := by
  refine .bind (.query _) fun _ => .bind (hI.finishActive _) fun _ => ?_
  refine .bind (.query _) fun _ => .bind (.query _) fun _ => .bind (.query _) fun existing => ?_
  cases existing with
  | some existing => exact .bind (shadeInterned_preserves hI _) fun _ => .pure _
  | none => exact internNewString_preserves hI _ _

/-! ## Growth -/

/-- An invariant of the ledger that the growth of an object keeps as well: more slots, and the
relocation of the object behind the last slot. -/
structure GrowthInvariant (I : Heap → Prop) : Prop extends LedgerInvariant I where
  resize : ∀ {h : Heap} (size : ℕ), I h → I (h.resize size)
  relocated : ∀ {h h' : Heap} {id : ObjectId} {oldSlot g requiredWidth : ℕ} {o : Object}, I h →
    h.resolve id = .ok (oldSlot, o) → 0 < g → h.objects.length < slotNumbers → 0 < requiredWidth →
    serials h'.objects = serials
      (((h.resize (h.objects.length + requiredWidth)).objects.set oldSlot none).set
        h.objects.length (some o)) →
    h'.generations =
      (h.resize (h.objects.length + requiredWidth)).generations.set h.objects.length g →
    h'.issued = (makeObjectId h.objects.length g, o.serial) :: h.issued →
    h'.nextSerial = h.nextSerial → (∀ c, h'.phase = .compacting c → h.phase = .compacting c) → I h'

theorem phase_forwardWorklist {h : Heap} {forwarding : ForwardingTable} {message : String}
    {phase : Phase} (hp : h.forwardWorklist forwarding message = .ok phase)
    (c : IncrementalCompaction) (hc : phase = .compacting c) : h.phase = .compacting c := by
  have hyields : Yields (h.forwardWorklist forwarding message)
      (fun phase => phase = .compacting c → h.phase = .compacting c) fun _ => True := by
    unfold forwardWorklist
    split
    · rw [yields_bind, yields_iff]
      exact ⟨fun _ _ => nofun, fun _ _ => trivial⟩
    · exact fun h => h
  exact hyields.of_ok hp hc

theorem relocateForGrowth_preserves (hI : GrowthInvariant I) (ownerId : ObjectId) {requiredWidth : ℕ}
    (growthRoots : List Value) (limitMessage worklistMessage : String)
    (hwidth : 0 < requiredWidth) :
    Preserves I
      (relocateForGrowth ownerId requiredWidth growthRoots limitMessage worklistMessage) := by
  refine .query_bind fun h resolved hh hr => ?_
  obtain ⟨oldSlot, object⟩ := resolved
  rw [wp_bind, wp_get]
  refine wp_ite (fun _ => (wp_bind _ _).mpr hh) fun hlimit => ?_
  have hsize : h.objects.length < slotNumbers := by
    simp only [headerLimit, slotNumbers] at hlimit ⊢
    omega
  refine wp_query_bind (fun generation hgeneration => ?_) fun _ _ => hh
  refine wp_query_bind (fun rememberedSet _ => ?_) fun _ _ => hh
  rw [wp_bind]
  refine wp_mono (wp_rewriteReferences_identity _ _ _ h) (fun rewritten h' hrewritten => ?_)
    fun _ _ hsame => hI.toOwnershipInvariant.sameButRoots hh hsame
  obtain ⟨hsame, hmoved⟩ := hrewritten
  have hh' := hI.toOwnershipInvariant.sameButRoots hh hsame
  refine wp_query_bind (fun weak hweak => ?_) fun _ _ => hh'
  refine wp_query_bind (fun internTable _ => ?_) fun _ _ => hh'
  refine wp_query_bind (fun ephemerons hephemerons => ?_) fun _ _ => hh'
  refine wp_query_bind (fun phase hphase => ?_) fun _ _ => hh'
  rw [wp_bind, wp_modify]
  refine Preserves.bind (.query _) (fun _ => .pure _) _ ?_
  rw [hsame] at hphase ⊢
  refine hI.relocated hh hr (lt_of_generationForNewBase hgeneration) hsize hwidth ?_ rfl rfl rfl
    (phase_forwardWorklist hphase)
  exact (serials_processEphemerons hephemerons).trans
    ((serials_processWeakTargets hweak).trans hmoved)

theorem ensureGrowthStorage_preserves (hI : GrowthInvariant I) (ownerSlot currentWidth requiredWidth : ℕ)
    (growthRoots : List Value) {relocate : HeapM (List Value)} (hrelocate : Preserves I relocate) :
    Preserves I
      (ensureGrowthStorage ownerSlot currentWidth requiredWidth growthRoots relocate) := by
  refine .get_bind fun h hh => wp_ite (fun _ => hrelocate h hh) fun _ => wp_ite (fun _ => ?_) fun _ => hh
  rw [wp_bind, wp_set]
  exact hI.resize _ hh

theorem ensureMapGrowthStorage_preserves (hI : GrowthInvariant I) (ownerId : ObjectId) {requiredWidth : ℕ}
    (growthRoots : List Value) (hwidth : 0 < requiredWidth) :
    Preserves I (ensureMapGrowthStorage ownerId requiredWidth growthRoots) :=
  .bind (.query _) fun _ => ensureGrowthStorage_preserves hI _ _ _ _ <|
    .bind (.query _) fun _ => .bind (.query _) fun _ =>
      relocateForGrowth_preserves hI _ _ _ _ hwidth

theorem ensureBuilderGrowthStorage_preserves (hI : GrowthInvariant I) (ownerId : ObjectId) {requiredWidth : ℕ}
    (growthRoots : List Value) (hwidth : 0 < requiredWidth) :
    Preserves I (ensureBuilderGrowthStorage ownerId requiredWidth growthRoots) :=
  .bind (.query _) fun _ => .guard <| ensureGrowthStorage_preserves hI _ _ _ _ <|
    .bind (.query _) fun _ => relocateForGrowth_preserves hI _ _ _ _ hwidth

/-! ## Stores -/

theorem incrementalWriteBarrierBeforePublish_preserves (hI : OwnershipInvariant I) (owner : ObjectId) (value : Value) :
    Preserves I (incrementalWriteBarrierBeforePublish owner value) := by
  refine .bind .get fun h => ?_
  split
  · refine .bind (.query _) fun _ => .bind (.query _) fun _ => .ite ?_ (.pure _)
    exact modify_phase_preserves hI fun _ _ => nofun
  · exact .pure _

theorem recordWriteBarrierIfNeeded_preserves (hI : OwnershipInvariant I) (owner : ObjectId) (value : Value) :
    Preserves I (recordWriteBarrierIfNeeded owner value) := by
  unfold recordWriteBarrierIfNeeded
  split
  · refine .bind (.query _) fun _ => .bind (.query _) fun _ => .ite ?_ (.pure _)
    exact .bind (recordRememberedObject_preserves hI _) fun _ => .pure _
  · exact .pure _

theorem recordMapWriteBarrierIfNeeded_preserves (hI : OwnershipInvariant I) (owner : ObjectId)
    (insertedKey : Option Value) (value : Value) :
    Preserves I (recordMapWriteBarrierIfNeeded owner insertedKey value) := by
  have hrest : ∀ youngKey : Bool, Preserves I (do
      let youngValue ← HeapM.query (·.refersToYoung value)
      if youngKey || youngValue then
        recordRememberedObject owner
        return true
      return false) := fun _ => .bind (.query _) fun _ =>
    .ite (.bind (recordRememberedObject_preserves hI _) fun _ => .pure _) (.pure _)
  refine .bind (.query _) fun _ => .ite (.pure _) ?_
  cases insertedKey with
  | some key => exact .bind (.query _) hrest
  | none => exact .bind (.pure _) hrest

theorem fieldBarriers_preserves (hI : OwnershipInvariant I) (isRef : Bool) (owner : ObjectId) (value : Value) :
    Preserves I (fieldBarriers isRef owner value) :=
  .ite (.bind (incrementalWriteBarrierBeforePublish_preserves hI _ _) fun _ =>
    recordWriteBarrierIfNeeded_preserves hI _ _) (.pure _)

theorem setPayload_preserves (hI : OwnershipInvariant I) (slot : ℕ) (descriptor : Descriptor) :
    Preserves I (modify (·.setPayload slot descriptor) : HeapM PUnit) := by
  refine .modify fun h hh => hI.frame hh (serials_setPayload h slot descriptor) ?_ ?_ ?_ (.of_eq ?_)
  all_goals
    unfold Heap.setPayload
    split <;> rfl

theorem mirrorIntoShadow_preserves (hI : OwnershipInvariant I) (id : ObjectId)
    (update : Heap → IncrementalCompaction → Payload → Except HeapError Payload) :
    Preserves I (mirrorIntoShadow id update) := by
  refine .get_bind fun h hh => ?_
  split
  · next c hc =>
    refine wp_query_bind (fun _ _ => ?_) fun _ _ => hh
    refine wp_query_bind (fun _ _ => ?_) fun _ _ => hh
    refine wp_query_bind (fun _ _ => ?_) fun _ _ => hh
    rw [wp_modify]
    refine hI.frame hh rfl rfl rfl rfl fun c' hc' => ⟨c, hc, ?_⟩
    cases hc'
    exact ⟨rfl, rfl, rfl, rfl⟩
  · exact hh

theorem collectAfterBarrier_preserves (hI : HeapInvariant I) (barrierTriggered : Bool) (mutationRoots : List Value) :
    Preserves I (collectAfterBarrier barrierTriggered mutationRoots) :=
  .bind .get fun _ => .ite (.bind (hI.collect _ _) fun _ => .pure _) (.pure _)

theorem publishField_preserves (hI : HeapInvariant I) (id : ObjectId) (slot : ℕ) (isRef : Bool) (value : Value)
    (payload : Payload)
    (mirror : Heap → IncrementalCompaction → Payload → Except HeapError Payload)
    (mutationRoots : List Value) :
    Preserves I (publishField id slot isRef value payload mirror mutationRoots) :=
  .bind (fieldBarriers_preserves hI.toOwnershipInvariant _ _ _) fun _ => .bind (.query _) fun _ =>
    .bind (setPayload_preserves hI.toOwnershipInvariant _ _) fun _ =>
      .bind (mirrorIntoShadow_preserves hI.toOwnershipInvariant _ _) fun _ => collectAfterBarrier_preserves hI _ _

theorem prepareMapInsertion_preserves (hI : GrowthInvariant I) (id : ObjectId) (key value : Value) :
    Preserves I (prepareMapInsertion id key value) :=
  .bind (hI.heapInvariant.finishActive _) fun _ => .bind (.query _) fun _ =>
    .bind (.query _) fun _ => .guard <|
      ensureMapGrowthStorage_preserves hI _ _ (Nat.succ_pos _)

theorem publishMapEntry_preserves (hI : OwnershipInvariant I)
    (hfinish : ∀ cells, Preserves I (finishActiveCompaction cells)) (ownerId : ObjectId)
    (existing : Option ℕ) (key value : Value) :
    Preserves I (publishMapEntry ownerId existing key value) := by
  refine .bind (.query _) fun _ => .bind (.query _) fun key => .bind (.query _) fun value => ?_
  refine .bind (incrementalWriteBarrierBeforePublish_preserves hI _ _) fun _ => ?_
  refine .bind (incrementalWriteBarrierBeforePublish_preserves hI _ _) fun _ => ?_
  refine .bind (recordMapWriteBarrierIfNeeded_preserves hI _ _ _) fun _ => ?_
  refine .bind (.query _) fun _ => .bind (.query _) fun _ => .bind (.query _) fun _ => ?_
  refine .bind (setPayload_preserves hI _ _) fun _ => .bind (.query _) fun _ => ?_
  refine .bind (mirrorIntoShadow_preserves hI _ _) fun _ => .bind .get fun _ => .ite ?_ ?_
  · exact .bind (collectImpl_preserves hI hfinish _ _) fun _ => .pure _
  · exact .bind (.query _) fun _ => .query _

/-- The end of `storeMapEntry`, after the growth. -/
def publishInserted (operands : List Value) : HeapM Unit := do
  let ownerId ← HeapM.query fun _ => asObject (operands.getD 0 .nil)
  publishMapEntry ownerId none (operands.getD 1 .nil) (operands.getD 2 .nil)

theorem publishInserted_preserves (hI : OwnershipInvariant I)
    (hfinish : ∀ cells, Preserves I (finishActiveCompaction cells)) (operands : List Value) :
    Preserves I (publishInserted operands) :=
  .bind (.query _) fun _ => publishMapEntry_preserves hI hfinish _ _ _ _

theorem storeMapEntry_preserves (hI : GrowthInvariant I) (id : ObjectId) (key value : Value) :
    Preserves I (storeMapEntry id key value) := by
  refine .bind (.query _) fun existing => .bind (.query _) fun _ => .bind (.query _) fun _ => ?_
  refine .ite (.bind (.pure _) fun _ => .bind (.query _) fun _ => ?_)
    (.bind (prepareMapInsertion_preserves hI _ _ _) fun _ => .bind (.query _) fun _ => ?_)
  all_goals
    exact publishMapEntry_preserves hI.toOwnershipInvariant hI.heapInvariant.finishActive _ _ _ _

theorem publishBuilder_preserves (hI : OwnershipInvariant I) (ownerId : ObjectId) (slot capacity : ℕ)
    (bytes : List UInt8) : Preserves I (publishBuilder ownerId slot capacity bytes) :=
  .bind (.query _) fun _ => .bind (setPayload_preserves hI _ _) fun _ =>
    .bind (mirrorIntoShadow_preserves hI _ _) fun _ => .query _

/-- The end of `growBuilder`, after the growth: the builder takes its new capacity. -/
def setGrownCapacity (grownCapacity : ℕ) (operands : List Value) : HeapM (List Value) := do
  let ownerId ← HeapM.query fun _ => asObject (operands.getD 0 .nil)
  let (slot, _, _, bytes) ← HeapM.query (·.checkedBuilder ownerId)
  let descriptor ← HeapM.query fun _ => validateDescriptorShape (.builder grownCapacity bytes)
  modify (·.setPayload slot descriptor)
  return operands

theorem setGrownCapacity_preserves (hI : OwnershipInvariant I) (grownCapacity : ℕ)
    (operands : List Value) : Preserves I (setGrownCapacity grownCapacity operands) :=
  .bind (.query _) fun _ => .bind (.query _) fun _ => .bind (.query _) fun _ =>
    .bind (setPayload_preserves hI _ _) fun _ => .pure _

theorem growBuilder_preserves (hI : GrowthInvariant I) (operands : List Value) :
    Preserves I (growBuilder operands) := by
  refine .bind (hI.heapInvariant.finishActive _) fun _ => .bind (.query _) fun _ => ?_
  refine .bind (.query _) fun _ => .bind (.query _) fun _ => .bind (.query _) fun _ => ?_
  refine .bind (.query _) fun _ => ?_
  refine .bind (ensureBuilderGrowthStorage_preserves hI _ _ (Nat.add_pos_left Nat.one_pos _)) fun _ => ?_
  exact setGrownCapacity_preserves hI.toOwnershipInvariant _ _

/-- The end of `builderAppend`, after the growth: the owner takes the bytes of the source. -/
def publishAppended (operands : List Value) : HeapM Unit := do
  let ownerId ← HeapM.query fun _ => asObject (operands.getD 0 .nil)
  let sourceId ← HeapM.query fun _ => asObject (operands.getD 1 .nil)
  let (slot, _, capacity, bytes) ← HeapM.query (·.checkedBuilder ownerId)
  let appended ← HeapM.query (·.checkedString sourceId)
  publishBuilder ownerId slot capacity (bytes ++ appended)

theorem publishAppended_preserves (hI : OwnershipInvariant I) (operands : List Value) :
    Preserves I (publishAppended operands) :=
  .bind (.query _) fun _ => .bind (.query _) fun _ => .bind (.query _) fun _ =>
    .bind (.query _) fun _ => publishBuilder_preserves hI _ _ _ _

theorem builderAppend_preserves (hI : GrowthInvariant I) (id : ObjectId) (source : Value) :
    Preserves I (builderAppend id source) := by
  refine .bind (.query _) fun _ => .bind (.query _) fun _ => .bind (.query _) fun _ => ?_
  refine .bind (.query _) fun _ => .bind (.query _) fun _ => .bind (.query _) fun _ => ?_
  refine .bind (.query _) fun _ => .guard ?_
  refine .ite (.bind (growBuilder_preserves hI _) fun _ => ?_) (.bind (.pure _) fun _ => ?_)
  all_goals exact publishAppended_preserves hI.toOwnershipInvariant _

/-! ## Runs -/

/-- The operations that may grow the storage of an object. -/
def Operation.grows : Operation → Bool
  | mapSet .. => true
  | builderAppend .. => true
  | _ => false

theorem run_preserves (hI : HeapInvariant I) (op : Operation) (hop : op.grows = false) :
    Preserves I op.run := by
  have hO := hI.toOwnershipInvariant
  cases op with
  | allocatePair left right => exact .map (allocate_preserves hI _ _)
  | allocateScalarArray length init => exact .map (allocate_preserves hI _ _)
  | allocateRefArray length init =>
    exact .map (.bind (.query _) fun _ => allocate_preserves hI _ _)
  | allocateString bytes => exact .map (allocate_preserves hI _ _)
  | allocateStringConcat left right => exact .map (allocateStringConcat_preserves hI _ _)
  | allocateStringSubstring source lo hi =>
    exact .map (.bind (.query _) fun _ => .bind (collectBeforeAllocation_preserves hI _) fun _ =>
      .bind (.query _) fun _ => allocateDescriptor_preserves hI _)
  | internString source => exact .map (internString_preserves hI _)
  | allocateClosure l fn captures captureMap =>
    exact .map (.guard (.bind (.query _) fun _ => allocate_preserves hI _ _))
  | allocateMap l keyIsRef valueIsRef => exact .map (allocate_preserves hI _ _)
  | allocateWeak target =>
    exact .map (.bind (.query _) fun _ => .bind (.query _) fun _ => allocate_preserves hI _ _)
  | allocateEphemeron key value valueIsRef =>
    exact .map (.bind (.query _) fun _ => allocate_preserves hI _ _)
  | allocateBuilder => exact .map (allocate_preserves hI _ _)
  | builderToString builder => exact .map (builderToString_preserves hI _)
  | allocateRecord l fields refMap =>
    exact .map (.guard (.bind (.query _) fun _ => allocate_preserves hI _ _))
  | allocateVariant l c fields caseRefMaps =>
    exact .map (.bind (.query _) fun _ => allocate_preserves hI _ _)
  | setField id field value =>
    refine .bind (.bind (.query _) fun _ => .bind (.query _) fun _ => ?_) fun _ => .pure _
    exact publishField_preserves hI _ _ _ _ _ _ _
  | arraySet id index value =>
    refine .bind (.bind (.query _) fun _ => .guard ?_) fun _ => .pure _
    exact publishField_preserves hI _ _ _ _ _ _ _
  | refArraySet id index value =>
    refine .bind (.bind (.query _) fun _ => .bind (.query _) fun _ => .bind (.query _) fun _ =>
      .guard ?_) fun _ => .pure _
    exact publishField_preserves hI _ _ _ _ _ _ _
  | mapSet id key value => exact nomatch hop
  | recordSet id index value =>
    refine .bind (.bind (.query _) fun _ => .guard (.bind (.query _) fun _ => ?_)) fun _ => .pure _
    exact publishField_preserves hI _ _ _ _ _ _ _
  | ephemeronSetValue id value =>
    refine .bind (.bind (.query _) fun _ => .guard (.bind (.query _) fun _ => ?_)) fun _ => .pure _
    exact publishField_preserves hI _ _ _ _ _ _ _
  | builderAppend id source => exact nomatch hop
  | builderClear id =>
    refine .bind (.bind (.query _) fun _ => .bind (.query _) fun _ => .bind (.query _) fun _ => ?_)
      fun _ => .pure _
    exact publishBuilder_preserves hO _ _ _ _
  | makeHandle key value =>
    refine .bind (.bind (.query _) fun _ => .modify fun _ hh => ?_) fun _ => .pure _
    exact hO.frame hh rfl rfl rfl rfl (.of_eq rfl)
  | releaseHandle key =>
    exact .bind (.modify fun _ hh => hO.frame hh rfl rfl rfl rfl (.of_eq rfl)) fun _ => .pure _
  | moveHandle source destination =>
    exact .bind (.modify fun _ hh => hO.frame hh rfl rfl rfl rfl (.of_eq rfl)) fun _ => .pure _
  | setStressConfig config =>
    exact .bind (.modify fun _ hh => hO.frame hh rfl rfl rfl rfl (.of_eq rfl)) fun _ => .pure _
  | collect => exact .bind (hI.collect _ _) fun _ => .pure _
  | collectMinor => exact .bind (hI.collect _ _) fun _ => .pure _
  | startIncrementalMarking => exact .bind (startIncrementalMarking_preserves hO) fun _ => .pure _
  | incrementalMarkStep budget =>
    exact .bind (incrementalMarkStep_preserves hO _) fun _ => .pure _
  | finishIncrementalMarking =>
    exact .bind (finishIncrementalMarkingImpl_preserves hO _) fun _ => .pure _
  | finishIncrementalMarkingToIncrementalCompaction =>
    exact .bind (finishIncrementalMarkingToIncrementalCompaction_preserves hI) fun _ => .pure _
  | startIncrementalCompaction =>
    exact .bind (startIncrementalCompaction_preserves hI) fun _ => .pure _
  | incrementalCompactStep budget =>
    exact .bind (hI.compactStep _ _) fun _ => .pure _
  | finishIncrementalCompaction =>
    exact .bind (hI.finish _) fun _ => .pure _

/-- Every operation keeps an invariant of the ledger and of growth. -/
theorem GrowthInvariant.run (hI : GrowthInvariant I) (op : Operation) : Preserves I op.run := by
  cases hop : op.grows with
  | false => exact run_preserves hI.heapInvariant op hop
  | true =>
    cases op with
    | mapSet id key value => exact .bind (storeMapEntry_preserves hI _ _ _) fun _ => .pure _
    | builderAppend id source => exact .bind (builderAppend_preserves hI _ _) fun _ => .pure _
    | _ => exact nomatch hop

/-- So does every action of the mutator. -/
theorem GrowthInvariant.after (hI : GrowthInvariant I) {h : Heap} (hh : I h) (action : Action) :
    I (action.after h) := by
  have hstep : Preserves I action.step := by
    cases action with
    | setRoots cells =>
      exact .bind (.modify fun _ hh => hI.frame hh rfl rfl rfl rfl (.of_eq rfl)) fun _ => .pure _
    | call op => exact hI.run op
  have hwp := hstep h hh
  unfold Action.after
  unfold wp at hwp
  split <;> simp_all

theorem GrowthInvariant.runs (hI : GrowthInvariant I) {h : Heap} (hh : I h)
    (actions : List Action) : I (h.run actions) :=
  List.foldlRecOn actions _ hh fun _ hh action _ => hI.after hh action

end LanguageRuntime.Gc
