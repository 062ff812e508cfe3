import LanguageRuntime.Gc.RunTheorems

/-!
# Roots stay current

Incremental compaction leaves identifiers behind that still resolve but are not the current ones of
their objects. No public operation leaves such an identifier in the root cells: it rewrites the
roots, or leaves them and the names of all objects alone, or ends outside incremental compaction.
The identifiers it returns are current as well.
-/

namespace LanguageRuntime.Gc

open LanguageRuntime LanguageRuntime.Library

namespace Heap

/-- No incremental compaction is active. -/
def Settled (h : Heap) : Prop := h.incrementalCompactionActive = false

/-- Every root is the current identifier of its object. -/
def RootsCurrent (h : Heap) : Prop := ∀ id, .object id ∈ h.rootCells → h.Current id

/-- What keeps stale roots away. -/
def Rooted (h : Heap) : Prop := h.Settled ∨ h.RootsCurrent

section Rooted

variable {h h' : Heap} {id : ObjectId} {slot : ℕ} {o : Object}

theorem settled_iff : h.Settled ↔ ∀ c, h.phase ≠ .compacting c :=
  incrementalCompactionActive_eq_false

theorem Settled.current (hs : h.Settled) (hr : h.Resolves id) : h.Current id := by
  obtain ⟨slot, o, hresolve⟩ := hr
  exact ⟨o, (lookup_of_resolve hs hresolve).1⟩

/-- The roots of a heap that keeps the invariant resolve. -/
theorem Wf.rootsCurrent (hw : h.Wf) (hr : h.Rooted) : h.RootsCurrent := by
  intro id hid
  rcases hr with hs | hcurrent
  · exact hs.current (valid_object.mp (hw.cells _ hid))
  · exact hcurrent id hid

/-- `h'` has the roots of `h`, and what is current in `h` is current in it. -/
structure KeepsNames (h h' : Heap) : Prop where
  rootCells : h'.rootCells = h.rootCells
  current : ∀ id, h.Current id → h'.Current id
  settled : h.Settled → h'.Settled

theorem Rooted.frame (hr : h.Rooted) (hk : h.KeepsNames h') : h'.Rooted := by
  rcases hr with hs | hcurrent
  · exact .inl (hk.settled hs)
  · refine .inr fun id hid => hk.current id (hcurrent id ?_)
    rwa [hk.rootCells] at hid

/-- The side tables have no part in it. -/
theorem keepsNames_of_eq (hobjects : h'.objects = h.objects)
    (hgenerations : h'.generations = h.generations) (hcells : h'.rootCells = h.rootCells)
    (hsettled : h.Settled → h'.Settled) : h.KeepsNames h' where
  rootCells := hcells
  current id hid := by
    obtain ⟨o, ho⟩ := hid
    refine ⟨o, ?_⟩
    unfold lookup generationAt objectAt at ho ⊢
    rwa [hobjects, hgenerations]
  settled := hsettled

/-- Another object in the place of one. -/
theorem keepsNames_putObject (o' : Object) (ho : h.objectAt slot = some o) :
    h.KeepsNames (h.putObject slot o') where
  rootCells := rfl
  current id hid := by
    obtain ⟨o₁, ho₁⟩ := hid
    obtain ⟨hnonzero, hgeneration, hobject⟩ := lookup_eq_some.mp ho₁
    by_cases hslot : id.slot = slot
    · refine ⟨o', lookup_eq_some.mpr ⟨hnonzero, hgeneration, ?_⟩⟩
      rw [hslot]
      exact getD_set_self _ _ (lt_length_of_objectAt ho)
    · refine ⟨o₁, lookup_eq_some.mpr ⟨hnonzero, hgeneration, ?_⟩⟩
      show (h.objects.set slot (some o')).getD id.slot none = _
      rw [getD_set, if_neg fun hand => hslot hand.1.symm]
      exact hobject
  settled hs := hs

theorem keepsNames_setPayload (slot : ℕ) (d : Descriptor) : h.KeepsNames (h.setPayload slot d) := by
  unfold setPayload
  split
  · next o ho => exact keepsNames_putObject _ ho
  · exact ⟨rfl, fun _ hid => hid, fun hs => hs⟩

end Rooted

end Heap

/-! ## Programs that end outside incremental compaction -/

open Heap

/-- When `m` returns, no incremental compaction is active. -/
def Settles {α : Type} (m : HeapM α) : Prop := Ensures (fun _ => True) Settled m

theorem OwnershipInvariant.settled : OwnershipInvariant Settled where
  frame hs _ _ _ _ hplan := settled_iff.mpr fun c' hc' =>
    let ⟨c, hc, _⟩ := hplan c' hc'
    settled_iff.mp hs c hc
  compacted _ _ _ _ _ _ _ _ hidle := compactionActive_of_idle hidle

theorem settles_modify_idle {f : Heap → Heap} (hf : ∀ h, (f h).phase = .idle) :
    Settles (modify f : HeapM PUnit) := .modify fun h _ => compactionActive_of_idle (hf h)

theorem settles_compactMarkedObjects (kind : CollectionKind) (extraRoots : List Value) :
    Settles (compactMarkedObjects kind extraRoots) := by
  refine .last fun _ => .last fun moved => .last fun _ => .last fun weak => ?_
  refine .last fun _ => .last fun ephemerons => .bind (settles_modify_idle fun _ => rfl) fun _ => ?_
  have hO := OwnershipInvariant.settled
  exact .bind (recordPromotedObjectEdges_preserves hO _).ensures fun _ =>
    .bind (pruneRememberedSet_preserves hO).ensures fun _ => .bind (.query _) fun _ => .pure _

theorem settles_finishIncrementalMarkingImpl (extraRoots : List Value) :
    Settles (finishIncrementalMarkingImpl extraRoots) :=
  .last fun _ => settles_compactMarkedObjects _ _

theorem settles_finalizeIncrementalCompaction (extraRoots : List Value) :
    Settles (finalizeIncrementalCompaction extraRoots) := by
  refine .getting fun h _ => wp_ite (fun _ => (wp_bind _ _).mpr trivial) fun _ => ?_
  refine Ensures.last (I := fun _ => True) (fun extraRoots => ?_) h trivial
  refine .last fun _ => .last fun _ => .last fun _ => .last fun _ => .last fun _ => ?_
  exact .bind (settles_modify_idle fun _ => rfl) fun _ => .bind (.query _) fun _ => .pure _

theorem settles_finishIncrementalCompactionImpl (extraRoots : List Value) :
    Settles (finishIncrementalCompactionImpl extraRoots) := by
  refine .getting fun h _ => ?_
  split
  · exact wp_ite (fun _ => Ensures.last (I := fun _ => True)
      (fun _ => settles_finalizeIncrementalCompaction _) h trivial)
      fun _ => settles_finalizeIncrementalCompaction _ h trivial
  · trivial

theorem settles_finishActiveCompaction (extraRoots : List Value) :
    Settles (finishActiveCompaction extraRoots) := by
  refine .getting fun h _ => wp_ite (fun _ => ?_) fun hinactive => ?_
  · exact settles_finishIncrementalCompactionImpl _ h trivial
  · exact (Bool.not_eq_true _).mp hinactive

theorem settles_collectImpl (kind : CollectionKind) (extraRoots : List Value) :
    Settles (collectImpl kind extraRoots) :=
  .last fun _ => .last fun _ => .last fun _ => settles_compactMarkedObjects _ _

/-! ## Allocators -/

theorem settles_placeObject (payload : Payload) : Ensures Settled Settled (placeObject payload) := by
  refine .bind (.query _) fun d => ?_
  have hreserve : Ensures Settled Settled (reserveStorageRun d.val.storageSlotCount) := by
    refine .getting fun h hs => ?_
    split
    · exact hs
    · exact wp_ite (fun _ => (wp_bind _ _).mpr trivial) fun _ => hs
  refine .bind hreserve fun base => .bind (.query _) fun generation => ?_
  refine .bind (.modify fun h hs => settled_iff.mpr fun c hc => ?_) fun _ => .pure _
  -- a new object may be grey, but opens no compaction
  unfold installObject at hc
  dsimp only at hc
  split at hc
  · cases hc
  · exact settled_iff.mp hs c hc

theorem settles_allocateObject (d : Descriptor) : Settles (allocateObject d) := by
  refine .getting fun h _ => wp_ite (fun _ => ?_) fun hinactive => ?_
  · exact Ensures.bind (settles_finishIncrementalCompactionImpl _)
      (fun _ => settles_placeObject _) h trivial
  · exact settles_placeObject _ h ((Bool.not_eq_true _).mp hinactive)

theorem settles_collectAfterAllocation (id : ObjectId) :
    Ensures Settled Settled (collectAfterAllocation id) := by
  refine .getting fun h hs => wp_ite (fun _ => ?_) fun _ => hs
  rw [wp_bind]
  refine wp_mono (settles_collectImpl .major [.object id] h trivial) (fun cells h' hs' => ?_)
    fun _ _ _ => trivial
  split
  · exact hs'
  · trivial

theorem settles_allocateDescriptor (d : Except HeapError Descriptor) :
    Settles (allocateDescriptor d) :=
  .last fun d => .bind (settles_allocateObject d) fun id => settles_collectAfterAllocation id

theorem settles_internString (source : Value) : Settles (internString source) := by
  refine .last fun _ => .bind (settles_finishActiveCompaction _) fun operands => ?_
  refine .bind (.query _) fun id => .bind (.query _) fun contentHash => ?_
  refine .bind (.query _) fun existing => ?_
  cases existing with
  | some existing =>
    refine .bind (.getting fun h hs => ?_) fun _ => .pure _
    split
    · refine wp_query_bind (fun worklist _ => ?_) fun _ _ => trivial
      rw [wp_modify]
      rfl
    · exact hs
  | none =>
    refine Ensures.weaken (.last fun _ => .last fun _ => ?_)
    exact .bind (settles_allocateDescriptor _) fun canonical =>
      .bind (.modify fun h hs => hs) fun _ => .bind (.query _) fun _ => .pure _

/-! ## Growth -/

theorem settles_relocateForGrowth (ownerId : ObjectId) (width : ℕ) (growthRoots : List Value)
    (limitMessage worklistMessage : String) :
    Ensures Settled Settled
      (relocateForGrowth ownerId width growthRoots limitMessage worklistMessage) := by
  have hreferences : ∀ forwarding movedObjects cells,
      Ensures Settled Settled (rewriteReferences forwarding movedObjects cells) := by
    intro forwarding movedObjects cells h hs
    refine wp_mono (wp_rewriteReferences_identity forwarding movedObjects cells h)
      (fun r h' hpost => ?_) fun _ _ _ => trivial
    rw [hpost.1]
    exact hs
  refine .bind (.query _) fun found => .getting fun h hs => ?_
  refine wp_ite (fun _ => (wp_bind _ _).mpr trivial) fun _ => ?_
  refine Ensures.bind (I := Settled) (.query _) (fun generation => ?_) h hs
  refine .bind (.query _) fun _ => .bind (hreferences _ _ _) fun moved => ?_
  refine .bind (.query _) fun weak => .bind (.query _) fun internTable => ?_
  refine .bind (.query _) fun ephemerons h₁ hs₁ => ?_
  refine wp_query_bind (fun phase hphase => ?_) fun _ _ => trivial
  rw [wp_bind, wp_modify]
  refine wp_query_bind (fun _ _ => ?_) fun _ _ => trivial
  refine settled_iff.mpr fun c hc => ?_
  -- the worklist is forwarded, and any other phase stays what it is
  have hc : phase = .compacting c := hc
  unfold forwardWorklist at hphase
  split at hphase
  · obtain ⟨worklist, -, hphase⟩ := bind_eq_ok.mp hphase
    rw [hc] at hphase
    cases hphase
  · cases hphase
    exact settled_iff.mp hs₁ c hc

theorem settles_ensureGrowthStorage (ownerSlot currentWidth width : ℕ) (cells : List Value)
    {relocate : HeapM (List Value)} (hrelocate : Ensures Settled Settled relocate) :
    Ensures Settled Settled (ensureGrowthStorage ownerSlot currentWidth width cells relocate) := by
  refine .getting fun h hs => wp_ite (fun _ => hrelocate h hs) fun _ => ?_
  exact wp_ite (fun _ => hs) fun _ => hs

theorem settles_prepareMapInsertion (id : ObjectId) (key value : Value) :
    Settles (prepareMapInsertion id key value) := by
  refine .bind (settles_finishActiveCompaction _) fun operands => .bind (.query _) fun ownerId => ?_
  refine .bind (.query _) fun found => .guard (.bind (.query _) fun found => ?_)
  exact settles_ensureGrowthStorage _ _ _ _ <| .bind (.query _) fun _ =>
    .bind (.query _) fun _ => settles_relocateForGrowth _ _ _ _ _

theorem settles_growBuilder (operands : List Value) : Settles (growBuilder operands) := by
  refine .bind (settles_finishActiveCompaction _) fun operands => .bind (.query _) fun ownerId => ?_
  refine .bind (.query _) fun _ => .bind (.query _) fun _ => .bind (.query _) fun _ => ?_
  refine .bind (.query _) fun _ => .bind (J := Settled) ?_ fun _ => .bind (.query _) fun _ => ?_
  · exact .bind (.query _) fun _ => .guard <| settles_ensureGrowthStorage _ _ _ _ <|
      .bind (.query _) fun _ => settles_relocateForGrowth _ _ _ _ _
  · exact .bind (.query _) fun _ => .bind (.query _) fun _ =>
      .bind (setPayload_preserves .settled _ _).ensures fun _ => .pure _

/-! ## Stores -/

/-- `m` takes rooted heaps to rooted heaps. -/
abbrev KeepsRooted {α : Type} (m : HeapM α) : Prop := Ensures Rooted Rooted m

theorem Settles.keepsRooted {α : Type} {m : HeapM α} (hm : Settles m) : KeepsRooted m :=
  hm.mono (fun _ _ => trivial) fun _ hs => .inl hs

theorem keepsRooted_modify {f : Heap → Heap} (hf : ∀ h : Heap, h.KeepsNames (f h)) :
    KeepsRooted (modify f : HeapM PUnit) := .modify fun h hr => hr.frame (hf h)

theorem keepsRooted_incrementalWriteBarrierBeforePublish (owner : ObjectId) (value : Value) :
    KeepsRooted (incrementalWriteBarrierBeforePublish owner value) := by
  refine .getting fun h hr => ?_
  split
  · refine Ensures.bind (I := Rooted) (.query _) (fun _ => .bind (.query _) fun _ => ?_) h hr
    exact .ite (.modify fun _ _ => .inl rfl) (.pure _)
  · exact hr

theorem keepsRooted_recordRememberedObject (id : ObjectId) :
    KeepsRooted (recordRememberedObject id) := by
  refine .bind (.query _) fun found => .guard (keepsRooted_modify fun h => ?_)
  split
  · exact ⟨rfl, fun _ hid => hid, fun hs => hs⟩
  · exact keepsNames_of_eq rfl rfl rfl fun hs => hs

theorem keepsRooted_recordWriteBarrierIfNeeded (owner : ObjectId) (value : Value) :
    KeepsRooted (recordWriteBarrierIfNeeded owner value) := by
  unfold recordWriteBarrierIfNeeded
  split
  · refine .bind (.query _) fun _ => .bind (.query _) fun _ => .ite ?_ (.pure _)
    exact .bind (keepsRooted_recordRememberedObject _) fun _ => .pure _
  · exact .pure _

theorem keepsRooted_recordMapWriteBarrierIfNeeded (owner : ObjectId) (insertedKey : Option Value)
    (value : Value) : KeepsRooted (recordMapWriteBarrierIfNeeded owner insertedKey value) := by
  have hrest : ∀ youngKey : Bool, KeepsRooted (do
      let youngValue ← HeapM.query (·.refersToYoung value)
      if youngKey || youngValue then
        recordRememberedObject owner
        return true
      return false) := fun _ => .bind (.query _) fun _ =>
    .ite (.bind (keepsRooted_recordRememberedObject _) fun _ => .pure _) (.pure _)
  refine .bind (.query _) fun _ => .ite (.pure _) ?_
  cases insertedKey with
  | some key => exact .bind (.query _) hrest
  | none => exact .bind (.pure _) hrest

theorem keepsRooted_mirrorIntoShadow (id : ObjectId)
    (update : Heap → IncrementalCompaction → Payload → Except HeapError Payload) :
    KeepsRooted (mirrorIntoShadow id update) := by
  refine .getting fun h hr => ?_
  split
  · next c hc =>
    refine wp_query_bind (fun _ _ => ?_) fun _ _ => trivial
    refine wp_query_bind (fun _ _ => ?_) fun _ _ => trivial
    refine wp_query_bind (fun _ _ => ?_) fun _ _ => trivial
    rw [wp_modify]
    exact hr.frame (keepsNames_of_eq rfl rfl rfl fun hs => absurd hc (settled_iff.mp hs c))
  · exact hr

theorem keepsRooted_collectAfterBarrier (triggered : Bool) (roots : List Value) :
    KeepsRooted (collectAfterBarrier triggered roots) := by
  refine .getting fun h hr => wp_ite (fun _ => ?_) fun _ => hr
  exact Ensures.bind (settles_collectImpl .minor roots).keepsRooted (fun _ => .pure _) h hr

theorem keepsRooted_publishField (id : ObjectId) (slot : ℕ) (isRef : Bool) (value : Value)
    (payload : Payload) (mirror : Heap → IncrementalCompaction → Payload → Except HeapError Payload)
    (roots : List Value) : KeepsRooted (publishField id slot isRef value payload mirror roots) := by
  have hbarriers : KeepsRooted (fieldBarriers isRef id value) :=
    .ite (.bind (keepsRooted_incrementalWriteBarrierBeforePublish _ _) fun _ =>
      keepsRooted_recordWriteBarrierIfNeeded _ _) (.pure _)
  refine .bind hbarriers fun triggered => .bind (.query _) fun d => ?_
  refine .bind (keepsRooted_modify fun h => keepsNames_setPayload slot d) fun _ => ?_
  exact .bind (keepsRooted_mirrorIntoShadow _ _) fun _ => keepsRooted_collectAfterBarrier _ _

theorem keepsRooted_publishMapEntry (ownerId : ObjectId) (existing : Option ℕ) (key value : Value) :
    KeepsRooted (publishMapEntry ownerId existing key value) := by
  refine .bind (.query _) fun found => .bind (.query _) fun key => .bind (.query _) fun value => ?_
  refine .bind (keepsRooted_incrementalWriteBarrierBeforePublish _ _) fun _ => ?_
  refine .bind (keepsRooted_incrementalWriteBarrierBeforePublish _ _) fun _ => ?_
  refine .bind (keepsRooted_recordMapWriteBarrierIfNeeded _ _ _) fun triggered => ?_
  refine .bind (.query _) fun found => .bind (.query _) fun map => .bind (.query _) fun d => ?_
  refine .bind (keepsRooted_modify fun h => keepsNames_setPayload found.1 d) fun _ => ?_
  refine .bind (.query _) fun _ => .bind (keepsRooted_mirrorIntoShadow _ _) fun _ => ?_
  refine .getting fun h hr => wp_ite (fun _ => ?_) fun _ => ?_
  · exact Ensures.bind (settles_collectImpl _ _).keepsRooted (fun _ => .pure _) h hr
  · exact Ensures.bind (I := Rooted) (.query _) (fun _ => .query _) h hr

theorem keepsRooted_publishBuilder (ownerId : ObjectId) (slot capacity : ℕ) (bytes : List UInt8) :
    KeepsRooted (publishBuilder ownerId slot capacity bytes) := by
  refine .bind (.query _) fun d => ?_
  refine .bind (keepsRooted_modify fun h => keepsNames_setPayload slot d) fun _ => ?_
  exact .bind (keepsRooted_mirrorIntoShadow _ _) fun _ => .query _

theorem keepsRooted_storeMapEntry (id : ObjectId) (key value : Value) :
    KeepsRooted (storeMapEntry id key value) := by
  refine .bind (.query _) fun existing => .bind (.query _) fun _ => .bind (.query _) fun _ => ?_
  refine .ite (.bind (.pure _) fun _ => .bind (.query _) fun _ => ?_)
    (.bind (settles_prepareMapInsertion _ _ _).keepsRooted fun _ => .bind (.query _) fun _ => ?_)
  all_goals exact keepsRooted_publishMapEntry _ _ _ _

theorem keepsRooted_builderAppend (id : ObjectId) (source : Value) :
    KeepsRooted (builderAppend id source) := by
  have hpublish : ∀ operands, KeepsRooted (publishAppended operands) := fun _ =>
    .bind (.query _) fun _ => .bind (.query _) fun _ => .bind (.query _) fun _ =>
      .bind (.query _) fun _ => keepsRooted_publishBuilder _ _ _ _
  refine .bind (.query _) fun _ => .bind (.query _) fun _ => .bind (.query _) fun _ => ?_
  refine .bind (.query _) fun _ => .bind (.query _) fun _ => .bind (.query _) fun _ => ?_
  refine .bind (.query _) fun _ => .guard ?_
  exact .ite (.bind (settles_growBuilder _).keepsRooted hpublish) (.bind (.pure _) hpublish)

/-! ## Incremental compaction -/

/-- The identifier is no source identifier of an object that has moved, or it is the destination
identifier of one. -/
def IncrementalCompaction.Fresh (c : IncrementalCompaction) (id : ObjectId) : Prop :=
  c.forwarded id = none ∨ ∃ source, c.forwarded source = some id

/-- During a compaction every root is fresh. -/
def Heap.FreshRoots (h : Heap) : Prop :=
  ∀ c, h.phase = .compacting c → ∀ id, .object id ∈ h.rootCells → c.Fresh id

section Fresh

variable {h : Heap} {c : IncrementalCompaction} {id : ObjectId}

theorem IncrementalCompaction.Layout.current_iff_fresh (hl : c.Layout h)
    (hphase : h.phase = .compacting c) (hr : h.Resolves id) : h.Current id ↔ c.Fresh id := by
  have hcurrent : ∀ e ∈ c.plan, h.Current (c.idOf e) := by
    intro e he
    obtain ⟨o, -, ho, -⟩ := hl.objects e he
    exact ⟨o, (hl.lookup_idOf he).trans ho⟩
  constructor
  · rintro ⟨o, ho⟩
    obtain ⟨e, he, rfl⟩ := hl.eq_idOf_of_lookup ho
    have hforwarded := hl.forwarded_sourceId he
    by_cases hdone : c.Done e
    · rw [if_pos hdone] at hforwarded
      rw [idOf_of_done hdone]
      exact .inr ⟨e.sourceId, hforwarded⟩
    · rw [if_neg hdone] at hforwarded
      rw [idOf_of_not_done hdone]
      exact .inl hforwarded
  · intro hfresh
    rcases hfresh with hnone | ⟨source, hsource⟩
    · obtain ⟨e, hn⟩ := (hl.resolves_iff hphase).mp hr
      have hid : id = c.idOf e := by
        rcases hn.named with rfl | ⟨hdone, rfl⟩
        · have hforwarded := hl.forwarded_sourceId hn.planned
          rw [hnone] at hforwarded
          have hdone : ¬c.Done e := fun hdone => by
            rw [if_pos hdone] at hforwarded
            cases hforwarded
          exact (idOf_of_not_done hdone).symm
        · exact (idOf_of_done hdone).symm
      rw [hid]
      exact hcurrent e hn.planned
    · obtain ⟨e, he, hdone, -, rfl⟩ := hl.forwarded_eq_some.mp hsource
      have hid := hcurrent e he
      rwa [idOf_of_done hdone] at hid

theorem Heap.Wf.freshRoots (hw : h.Wf) (hr : h.RootsCurrent) : h.FreshRoots := fun _ hphase id hid =>
  ((hw.compacting hphase).2.current_iff_fresh hphase (valid_object.mp (hw.cells _ hid))).mp (hr id hid)

theorem Heap.Wf.rooted_of_fresh (hw : h.Wf) (hf : h.FreshRoots) : h.Rooted := by
  by_cases hs : h.Settled
  · exact .inl hs
  · rw [settled_iff, not_forall] at hs
    obtain ⟨c, hphase⟩ := hs
    have hphase := not_not.mp hphase
    refine .inr fun id hid => ?_
    have hresolves := valid_object.mp (hw.cells _ hid)
    exact ((hw.compacting hphase).2.current_iff_fresh hphase hresolves).mpr (hf c hphase id hid)

end Fresh

/-- What a rewriting that returns has made of the root cells. -/
theorem wp_rewriteRoots_cells {f : Value → Except HeapError Value} {P : Value → Prop}
    (hf : ∀ value value', f value = .ok value' → P value') (extraRoots : List Value) (h : Heap) :
    wp (rewriteRoots f extraRoots) (fun _ h' => h'.phase = h.phase ∧ ∀ value ∈ h'.rootCells, P value)
      (fun _ _ => True) h := by
  have hcells : ∀ cells, (rewriteCells f cells).2 = none →
      ∀ value ∈ (rewriteCells f cells).1, P value := by
    intro cells
    induction cells with
    | nil => exact fun _ _ hvalue => absurd hvalue List.not_mem_nil
    | cons value cells ih =>
      unfold rewriteCells
      cases hvalue : f value with
      | error e =>
        intro herror
        cases herror
      | ok value' => exact fun herror => List.forall_mem_cons.mpr ⟨hf _ _ hvalue, ih herror⟩
  unfold rewriteRoots
  rw [wp_bind, wp_get]
  dsimp only
  rw [wp_bind, wp_set]
  split
  · trivial
  · next hnone =>
    have hroots := hcells h.rootCells hnone
    rw [wp_bind, wp_modify]
    split
    · trivial
    · split
      · trivial
      · exact ⟨rfl, hroots⟩

/-- A read gives a fresh identifier. -/
theorem fresh_of_rewrite {h : Heap} {c : IncrementalCompaction} (hphase : h.phase = .compacting c)
    {value value' : Value} (hr : h.rewriteIncrementalCompactionValue false value = .ok value')
    {id : ObjectId} (hid : value' = .object id) : c.Fresh id := by
  unfold rewriteIncrementalCompactionValue at hr
  rw [hphase] at hr
  cases value with
  | object source =>
    dsimp only at hr
    split at hr
    · next hsource =>
      have hforwarded : c.forwarded source = c.forwarding.getD source.slot none := if_pos hsource
      split at hr
      · next destination hdestination =>
        obtain ⟨_, -, hr⟩ := bind_eq_ok.mp hr
        cases hr
        cases hid
        exact .inr ⟨source, hforwarded.trans hdestination⟩
      · next hnone =>
        obtain ⟨_, -, hr⟩ := bind_eq_ok.mp hr
        cases hr
        cases hid
        exact .inl (hforwarded.trans hnone)
    · next hsource =>
      obtain ⟨_, -, hr⟩ := bind_eq_ok.mp hr
      cases hr
      cases hid
      exact .inl (if_neg hsource)
  | _ => cases hr; cases hid

theorem ensures_recordPromotedObjectEdges {I : Heap → Prop}
    (hI : ∀ h rememberedSet, I h → I { h with rememberedSet := rememberedSet }) (slots : List ℕ) :
    Ensures I I (recordPromotedObjectEdges slots) := by
  have hrecord : ∀ id, Ensures I I (recordRememberedObject id) := by
    refine fun id => .bind (.query _) fun found => .guard (.modify fun h hh => ?_)
    split
    · exact hh
    · exact hI h _ hh
  induction slots with
  | nil => exact .pure _
  | cons slot slots ih =>
    refine .getting fun h hh => ?_
    dsimp only
    split
    · refine wp_ite (fun _ => (wp_bind _ _).mpr trivial) fun _ => ?_
      refine Ensures.bind (I := I) (.query _) (fun _ => .ite ?_ ih) h hh
      exact .bind (hrecord _) fun _ => ih
    · exact (wp_bind _ _).mpr trivial

/-- The move of an object rewrites the roots. -/
theorem freshRoots_incrementalCompactEntry (c : IncrementalCompaction)
    (entry : IncrementalCompactionEntry) (extraRoots : List Value) :
    Ensures (fun _ => True) FreshRoots (incrementalCompactEntry c entry extraRoots) := by
  have hkept : ∀ (h : Heap) rememberedSet, h.FreshRoots →
      FreshRoots { h with rememberedSet := rememberedSet } := fun _ _ hf => hf
  refine .bind (J := fun _ => True) (.mono (.query _) (fun _ h => h) fun _ _ => trivial)
    fun found => .getting fun h _ => ?_
  refine wp_ite (fun _ => (wp_bind _ _).mpr trivial) fun _ => ?_
  refine wp_ite (fun _ => (wp_bind _ _).mpr trivial) fun _ => ?_
  refine wp_ite (fun _ => (wp_bind _ _).mpr trivial) fun _ => ?_
  refine wp_ite (fun _ => (wp_bind _ _).mpr trivial) fun _ => ?_
  rw [wp_bind, wp_set, wp_bind, wp_get, wp_bind]
  refine wp_mono (wp_rewriteRoots_cells (P := fun value => ∀ id, value = .object id →
    IncrementalCompaction.Fresh { c with
      forwarding := c.forwarding.set entry.sourceSlot (some entry.destinationId)
      cursor := c.cursor + 1 } id) (fun value value' hr id hid => fresh_of_rewrite rfl hr hid) _ _)
    (fun cells h₁ hpost => ?_) fun _ _ _ => trivial
  obtain ⟨hphase, hroots⟩ := hpost
  have hfresh : h₁.FreshRoots := by
    intro c' hc' id hid
    rw [hphase] at hc'
    cases hc'
    exact hroots _ hid id rfl
  rw [wp_bind, wp_modify]
  have hregistries : (h₁.forwardRegistries entry).FreshRoots := hfresh
  refine wp_ite (fun _ => ?_) fun _ => ?_
  · exact Ensures.bind (ensures_recordPromotedObjectEdges hkept _)
      (fun _ => .bind (.query _) fun _ => .pure _) _ hregistries
  · exact Ensures.bind (I := FreshRoots) (.query _) (fun _ => .pure _) _ hregistries

theorem freshRoots_incrementalCompactLoop (budget : ℕ) (extraRoots : List Value) :
    Ensures FreshRoots FreshRoots (incrementalCompactLoop budget extraRoots) := by
  induction budget generalizing extraRoots with
  | zero => exact .pure _
  | succ budget ih =>
    refine .getting fun h hf => ?_
    split
    · next c hc =>
      split
      · next entry hentry =>
        refine Ensures.bind (I := FreshRoots)
          (freshRoots_incrementalCompactEntry c entry extraRoots).weaken (fun cells => ?_) h hf
        exact .bind (ih cells) fun _ => .pure _
      · exact hf
    · exact hf

theorem freshRoots_incrementalCompactStepImpl (budget : ℕ) (extraRoots : List Value) :
    Ensures FreshRoots FreshRoots (incrementalCompactStepImpl budget extraRoots) := by
  refine .getting fun h hf => wp_ite (fun _ => (wp_bind _ _).mpr trivial) fun _ => ?_
  refine Ensures.bind (I := FreshRoots) (freshRoots_incrementalCompactLoop budget extraRoots)
    (fun result => .ite (.bind (.query _) fun _ => .pure _) (.pure _)) h hf

/-- No object has moved when a phase opens. -/
theorem freshRoots_prepareIncrementalCompactionFromMarked :
    Ensures (fun _ => True) FreshRoots prepareIncrementalCompactionFromMarked := by
  refine .last fun planned => .last fun h₁ => .last fun weakRefs => .last fun _ => ?_
  refine .last fun internTable => .last fun _ => .last fun h₂ => .last fun ephemerons => ?_
  refine .last fun _ => .last fun rememberedSet => .last fun _ => .last fun _ => ?_
  refine .bind (J := FreshRoots) (.modify fun h _ c hc id _ => ?_) fun _ => .query _
  cases hc
  refine .inl ?_
  unfold IncrementalCompaction.forwarded
  split
  · exact getD_replicate_default _ _ _
  · rfl

theorem freshRoots_startIncrementalCompaction :
    Ensures (fun _ => True) FreshRoots startIncrementalCompaction := by
  refine .getting fun h _ => wp_ite (fun _ => (wp_bind _ _).mpr trivial) fun _ => ?_
  refine wp_ite (fun _ => (wp_bind _ _).mpr trivial) fun _ => ?_
  exact Ensures.last (I := fun _ => True)
    (fun _ => .last fun _ => freshRoots_prepareIncrementalCompactionFromMarked) h trivial

/-! ## The operations -/

/-- The operations that hand out an identifier end outside incremental compaction. -/
theorem settles_run (op : Operation) (h : Heap) :
    wp op.run (fun id h' => id.isSome = true → h'.Settled) (fun _ _ => True) h := by
  have hallocate : ∀ {m : HeapM ObjectId}, Settles m →
      wp (some <$> m) (fun id h' => id.isSome = true → h'.Settled) (fun _ _ => True) h := by
    intro m hm
    rw [wp_map]
    exact wp_mono (hm h trivial) (fun _ _ hs _ => hs) fun _ _ _ => trivial
  have hdescriptor : ∀ {operands : List Value} {d : List Value → Except HeapError Descriptor},
      Settles (collectBeforeAllocation operands >>= fun operands => allocateDescriptor (d operands)) :=
    .last fun _ => settles_allocateDescriptor _
  cases op with
  | allocatePair left right => exact hallocate hdescriptor
  | allocateScalarArray length init => exact hallocate hdescriptor
  | allocateRefArray length init => exact hallocate (.last fun _ => hdescriptor)
  | allocateString bytes => exact hallocate hdescriptor
  | allocateStringConcat left right =>
    exact hallocate (.last fun _ => .last fun _ => .last fun _ => .last fun _ => .last fun _ =>
      .guard (settles_allocateDescriptor _))
  | allocateStringSubstring source lo hi =>
    exact hallocate (.last fun _ => .last fun _ => .last fun _ => settles_allocateDescriptor _)
  | internString source => exact hallocate (settles_internString source)
  | allocateClosure l fn captures captureMap =>
    exact hallocate (.guard (.last fun _ => hdescriptor))
  | allocateMap l keyIsRef valueIsRef => exact hallocate hdescriptor
  | allocateWeak target => exact hallocate (.last fun _ => .last fun _ => hdescriptor)
  | allocateEphemeron key value valueIsRef => exact hallocate (.last fun _ => hdescriptor)
  | allocateBuilder => exact hallocate hdescriptor
  | builderToString builder =>
    exact hallocate (.last fun _ => .last fun _ => .last fun _ => .last fun _ => .last fun _ =>
      .last fun _ => settles_allocateDescriptor _)
  | allocateRecord l fields refMap => exact hallocate (.guard (.last fun _ => hdescriptor))
  | allocateVariant l c fields caseRefMaps => exact hallocate (.last fun _ => hdescriptor)
  | _ => exact wp_bind_forall (fun _ _ hsome => absurd hsome Bool.false_ne_true) fun _ _ => trivial

/-- Every operation keeps stale identifiers out of the roots: the phase of incremental compaction
rewrites them, and the rest leaves them alone or ends outside the phase. -/
theorem ensures_run (op : Operation) :
    KeepsRooted op.run ∨ Ensures FreshRoots FreshRoots op.run := by
  have hallocate : (∀ h, wp op.run (fun id _ => id.isSome = true) (fun _ _ => True) h) →
      KeepsRooted op.run := fun hsome h _ =>
    wp_mono (wp_and (settles_run op h) (hsome h)) (fun _ _ hpost => .inl (hpost.1 hpost.2))
      fun _ _ _ => trivial
  have hmap : ∀ {m : HeapM ObjectId} (h : Heap),
      wp (some <$> m) (fun id _ => id.isSome = true) (fun _ _ => True) h := by
    intro m h
    rw [wp_map]
    exact wp_of_run (fun _ _ _ => rfl) fun _ _ _ => trivial
  have hroots : ∀ {f : Heap → Heap}, (∀ h, (f h).Rooted ↔ h.Rooted) →
      KeepsRooted (do modify f; return none : HeapM (Option ObjectId)) := fun hf =>
    .bind (.modify fun h hr => (hf h).mpr hr) fun _ => .pure _
  cases op with
  | setField id field value =>
    exact .inl (.bind (.bind (.query _) fun _ => .bind (.query _) fun _ =>
      keepsRooted_publishField _ _ _ _ _ _ _) fun _ => .pure _)
  | arraySet id index value =>
    exact .inl (.bind (.bind (.query _) fun _ => .guard (keepsRooted_publishField _ _ _ _ _ _ _))
      fun _ => .pure _)
  | refArraySet id index value =>
    exact .inl (.bind (.bind (.query _) fun _ => .bind (.query _) fun _ => .bind (.query _) fun _ =>
      .guard (keepsRooted_publishField _ _ _ _ _ _ _)) fun _ => .pure _)
  | mapSet id key value => exact .inl (.bind (keepsRooted_storeMapEntry _ _ _) fun _ => .pure _)
  | recordSet id index value =>
    exact .inl (.bind (.bind (.query _) fun _ => .guard (.bind (.query _) fun _ =>
      keepsRooted_publishField _ _ _ _ _ _ _)) fun _ => .pure _)
  | ephemeronSetValue id value =>
    exact .inl (.bind (.bind (.query _) fun _ => .guard (.bind (.query _) fun _ =>
      keepsRooted_publishField _ _ _ _ _ _ _)) fun _ => .pure _)
  | builderAppend id source =>
    exact .inl (.bind (keepsRooted_builderAppend _ _) fun _ => .pure _)
  | builderClear id =>
    exact .inl (.bind (.bind (.query _) fun _ => .bind (.query _) fun _ => .bind (.query _) fun _ =>
      keepsRooted_publishBuilder _ _ _ _) fun _ => .pure _)
  | makeHandle key value =>
    exact .inl (.bind (.bind (.query _) fun _ => .modify fun h hr => hr) fun _ => .pure _)
  | releaseHandle key => exact .inl (hroots fun _ => Iff.rfl)
  | moveHandle source destination => exact .inl (hroots fun _ => Iff.rfl)
  | setStressConfig config => exact .inl (hroots fun _ => Iff.rfl)
  | collect =>
    exact .inl (.bind (settles_collectImpl _ _).keepsRooted fun _ => .pure _)
  | collectMinor => exact .inl (.bind (settles_collectImpl _ _).keepsRooted fun _ => .pure _)
  | startIncrementalMarking =>
    refine .inl (.bind (.getting fun h hr => ?_) fun _ => .pure _)
    refine wp_ite (fun _ => (wp_bind _ _).mpr trivial) fun _ => ?_
    refine wp_ite (fun _ => (wp_bind _ _).mpr trivial) fun _ => ?_
    exact Ensures.bind (I := Rooted) (.query _) (fun _ => .bind (.query _) fun worklist =>
      .modify fun _ _ => .inl rfl) h hr
  | incrementalMarkStep budget =>
    refine .inl (.bind (.getting fun h hr => ?_) fun _ => .pure _)
    split
    · next worklist hphase =>
      have hs : h.Settled := by rw [Settled, incrementalCompactionActive, hphase]
      refine wp_mono (Ensures.bind (incrementalMarkLoop_preserves .settled budget worklist).ensures
        (fun _ => .bind (.query _) fun _ => .pure _) h hs) (fun _ _ hs => .inl hs) fun _ _ _ => trivial
    · trivial
  | finishIncrementalMarking =>
    exact .inl (.bind (settles_finishIncrementalMarkingImpl _).keepsRooted fun _ => .pure _)
  | finishIncrementalMarkingToIncrementalCompaction =>
    refine .inr (.bind (.weaken (.last fun _ => .last fun _ => ?_)) fun _ => .pure _)
    exact freshRoots_prepareIncrementalCompactionFromMarked
  | startIncrementalCompaction =>
    exact .inr (.bind freshRoots_startIncrementalCompaction.weaken fun _ => .pure _)
  | incrementalCompactStep budget =>
    exact .inr (.bind (freshRoots_incrementalCompactStepImpl _ _) fun _ => .pure _)
  | finishIncrementalCompaction =>
    exact .inl (.bind (settles_finishIncrementalCompactionImpl _).keepsRooted fun _ => .pure _)
  | _ => exact .inl (hallocate hmap)

end LanguageRuntime.Gc
