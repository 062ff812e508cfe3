import LanguageRuntime.Gc.RunTheorems

/-!
# Slot numbers fit an identifier

Allocation and relocation test the slot limit before they extend the slot vector; growth in place
does not. A run in which no map or builder grows in place past the last slot keeps every slot
number below `slotNumbers`, and as long as that holds the unsigned tests are exact.
-/

namespace LanguageRuntime.Gc

open LanguageRuntime LanguageRuntime.Library Heap

/-! ## The slot vector -/

/-- Every slot has a number an identifier can hold. -/
def Heap.Addressable (h : Heap) : Prop := h.objects.length ≤ slotNumbers

/-- The program keeps the slots addressable however it ends. -/
abbrev KeepsAddressable {α : Type} (m : HeapM α) : Prop := Preserves Heap.Addressable m

variable {I : Heap → Prop}

theorem length_of_serials {objects objects' : List (Option Object)}
    (hserials : serials objects' = serials objects) : objects'.length = objects.length := by
  have hlength := congrArg List.length hserials
  simpa [serials] using hlength

theorem OwnershipInvariant.addressable : OwnershipInvariant Heap.Addressable where
  frame ha hobjects _ _ _ _ := (length_of_serials hobjects).trans_le ha
  compacted ha _ _ hr hobjects _ _ _ _ := by
    have hlength := (length_of_serials hobjects).trans (compactLiveObjects_grows hr).1
    exact hlength.trans_le ha

theorem Heap.length_moveEntry (h : Heap) (c : IncrementalCompaction)
    (entry : IncrementalCompactionEntry) (object : Object) :
    (h.moveEntry c entry object).objects.length = h.objects.length := by
  unfold Heap.moveEntry
  rw [List.length_set]
  split
  · exact rfl
  · exact List.length_set

theorem LedgerInvariant.addressable : LedgerInvariant Heap.Addressable where
  toOwnershipInvariant := .addressable
  evict ha hlength _ _ _ _ _ := hlength.trans_le ha
  opened _ _ ha _ _ := ha
  moved ha _ _ _ := (Heap.length_moveEntry _ _ _ _).trans_le ha
  reserved ha hsize := by
    show (Heap.resize _ _).objects.length ≤ slotNumbers
    rw [length_objects_resize]
    exact Nat.max_le.mpr ⟨ha, hsize ha⟩
  installed _ _ _ ha _ _ _ := List.length_set.trans_le ha

/-! ## Growth -/

theorem relocateForGrowth_keepsAddressable (ownerId : ObjectId) (requiredWidth : ℕ)
    (growthRoots : List Value) (limitMessage worklistMessage : String) :
    KeepsAddressable
      (relocateForGrowth ownerId requiredWidth growthRoots limitMessage worklistMessage) := by
  apply Preserves.query_bind
  intro h ⟨oldSlot, object⟩ ha hr
  rw [wp_bind, wp_get]
  apply wp_ite
  · exact fun _ => (wp_bind _ _).mpr ha
  intro hlimit
  have hsize : h.objects.length ≤ slotNumbers := ha
  rw [slotsLeft_eq hsize] at hlimit
  have hfit : h.objects.length + requiredWidth ≤ slotNumbers := by omega
  refine wp_query_bind (fun generation _ => ?_) fun _ _ => ha
  refine wp_query_bind (fun rememberedSet _ => ?_) fun _ _ => ha
  rw [wp_bind]
  apply wp_mono (wp_rewriteReferences_identity _ _ _ h)
  · intro ⟨movedObjects, growthRoots⟩ h' ⟨hsame, hmoved⟩
    have ha' := OwnershipInvariant.addressable.sameButRoots ha hsame
    refine wp_query_bind (fun ⟨movedObjects', weakRefs⟩ hweak => ?_) fun _ _ => ha'
    refine wp_query_bind (fun internTable _ => ?_) fun _ _ => ha'
    refine wp_query_bind (fun ⟨movedObjects'', ephemerons⟩ hephemerons => ?_) fun _ _ => ha'
    refine wp_query_bind (fun phase _ => ?_) fun _ _ => ha'
    rw [wp_bind, wp_modify]
    refine Preserves.bind (.query _) (fun _ => .pure _) _ ?_
    show movedObjects''.length ≤ slotNumbers
    have hserials := (serials_processEphemerons hephemerons).trans
      ((serials_processWeakTargets hweak).trans hmoved)
    rw [length_of_serials hserials, List.length_set, List.length_set, length_objects_resize]
    omega
  · exact fun _ _ hsame => OwnershipInvariant.addressable.sameButRoots ha hsame

/-- The storage of an object grows in place past the last slot an identifier can hold. -/
def Heap.Overruns (h : Heap) (slot width requiredWidth : ℕ) : Prop :=
  h.adjacentRunIsFree slot width requiredWidth = true ∧ slotNumbers < slot + requiredWidth

section Ensure

variable {h : Heap} {ownerSlot currentWidth requiredWidth : ℕ} {growthRoots : List Value}
  {relocate : HeapM (List Value)}

theorem wp_ensureGrowthStorage_addressable (ha : h.Addressable)
    (hrelocate : KeepsAddressable relocate)
    (hinside : ¬h.Overruns ownerSlot currentWidth requiredWidth) :
    wp (ensureGrowthStorage ownerSlot currentWidth requiredWidth growthRoots relocate)
      (fun _ => Heap.Addressable) (fun _ => Heap.Addressable) h := by
  unfold ensureGrowthStorage
  rw [wp_bind, wp_get]
  apply wp_ite
  · exact fun _ => hrelocate h ha
  intro hfree
  have hadjacent : h.adjacentRunIsFree ownerSlot currentWidth requiredWidth = true := by
    simpa using hfree
  have hlast : ownerSlot + requiredWidth ≤ slotNumbers := by
    by_contra hlt
    exact hinside ⟨hadjacent, by omega⟩
  apply wp_ite
  · intro _
    rw [wp_bind, wp_set]
    show (h.resize (ownerSlot + requiredWidth)).objects.length ≤ slotNumbers
    have hsize : h.objects.length ≤ slotNumbers := ha
    rw [length_objects_resize]
    omega
  · exact fun _ => ha

/-- Growth in place tests no limit: it leaves more slots than identifiers can name. -/
theorem wp_ensureGrowthStorage_oversized (hc : h.incrementalCompactionActive = false)
    (hover : h.Overruns ownerSlot currentWidth requiredWidth) :
    wp (ensureGrowthStorage ownerSlot currentWidth requiredWidth growthRoots relocate)
      (fun _ => Heap.Oversized) (fun _ => Heap.Oversized) h := by
  obtain ⟨hadjacent, hlast⟩ := hover
  unfold ensureGrowthStorage
  rw [wp_bind, wp_get]
  apply wp_ite
  · intro hnot
    rw [hadjacent] at hnot
    exact nomatch hnot
  intro _
  apply wp_ite
  · intro _
    rw [wp_bind, wp_set]
    refine ⟨?_, hc⟩
    rw [length_objects_resize]
    omega
  · intro hlong
    exact ⟨by omega, hc⟩

end Ensure

/-! ## Maps -/

/-- Inserting an entry into the map at the first of the operands overruns the slots. -/
def Heap.InsertionOverruns (h : Heap) (operands : List Value) : Prop :=
  ∃ ownerId slot o m, asObject (operands.getD 0 .nil) = .ok ownerId ∧
    h.checkedMap ownerId = .ok (slot, o, m) ∧ m.entries.length < headerLimit ∧
    h.Overruns slot o.width (o.width + 2)

/-- A `map_set` inserts an entry, and the insertion overruns the slots of the heap that a finished
compaction leaves. -/
def Heap.MapSetOverruns (h : Heap) (id : ObjectId) (key value : Value) : Prop :=
  h.findMapEntry id key = .ok none ∧
  (∃ slot o m, h.checkedMap id = .ok (slot, o, m) ∧ h.validateMapValue m value = .ok ()) ∧
  ∃ operands h', finishActiveCompaction [.object id, key, value] h = .ok operands h' ∧
    h'.InsertionOverruns operands

section MapSet

variable {h : Heap} {id : ObjectId} {key value : Value}

theorem wp_prepareMapInsertion_addressable (ha : h.Addressable)
    (hinside : ∀ operands h', finishActiveCompaction [.object id, key, value] h = .ok operands h' →
      ¬h'.InsertionOverruns operands) :
    wp (prepareMapInsertion id key value) (fun _ => Heap.Addressable) (fun _ => Heap.Addressable)
      h := by
  have hfinish := LedgerInvariant.addressable.heapInvariant.finishActive [.object id, key, value] h ha
  unfold prepareMapInsertion
  rw [wp_bind]
  apply wp_of_run
  · intro operands h' hrun
    have ha' : h'.Addressable := wp_ok (Q := fun _ => Heap.Addressable) hrun hfinish
    refine wp_query_bind (fun ownerId howner => ?_) fun _ _ => ha'
    refine wp_query_bind (fun ⟨_, o, m⟩ hmap => ?_) fun _ _ => ha'
    apply wp_ite
    · exact fun _ => (wp_bind _ _).mpr ha'
    intro hroom
    unfold ensureMapGrowthStorage
    refine wp_query_ok hmap ?_
    apply wp_ensureGrowthStorage_addressable ha'
    · exact .bind (.query _) fun _ => .bind (.query _) fun _ =>
        relocateForGrowth_keepsAddressable _ _ _ _ _
    · intro hover
      exact hinside operands h' hrun ⟨ownerId, _, o, m, howner, hmap, Nat.not_le.mp hroom, hover⟩
  · exact fun _ _ hrun => wp_error (E := fun _ => Heap.Addressable) hrun hfinish

theorem wp_storeMapEntry_addressable (ha : h.Addressable) (hinside : ¬h.MapSetOverruns id key value) :
    wp (storeMapEntry id key value) (fun _ => Heap.Addressable) (fun _ => Heap.Addressable) h := by
  have hpublish : ∀ (existing : Option ℕ) (operands : List Value), KeepsAddressable (do
      let ownerId ← HeapM.query fun _ => asObject (operands.getD 0 .nil)
      publishMapEntry ownerId existing (operands.getD 1 .nil) (operands.getD 2 .nil)) :=
    fun _ _ => .bind (.query _) fun _ =>
      publishMapEntry_preserves .addressable LedgerInvariant.addressable.heapInvariant.finishActive _ _ _ _
  refine wp_query_bind (fun existing hexisting => ?_) fun _ _ => ha
  refine wp_query_bind (fun ⟨slot, o, m⟩ hmap => ?_) fun _ _ => ha
  refine wp_query_bind (fun _ hvalue => ?_) fun _ _ => ha
  apply wp_ite
  · intro _
    exact Preserves.bind (.pure _) (hpublish existing) h ha
  intro hnew
  have hnone : existing = none := by simpa using hnew
  rw [wp_bind]
  apply wp_mono (wp_prepareMapInsertion_addressable ha fun operands h' hrun hover => hinside
    ⟨hnone ▸ hexisting, ⟨slot, o, m, hmap, hvalue⟩, operands, h', hrun, hover⟩)
  · exact fun operands h' ha' => hpublish existing operands h' ha'
  · exact fun _ _ ha' => ha'

end MapSet

/-! ## Builders -/

/-- The slots of a builder with a capacity. -/
def builderWidth (capacity : ℕ) : ℕ := 1 + (capacity + kStorageSlotBytes - 1) / kStorageSlotBytes

/-- Appending the string at the second of the operands to the builder at the first overruns the
slots. -/
def Heap.AppendOverruns (h : Heap) (operands : List Value) : Prop :=
  ∃ ownerId sourceId source slot o capacity bytes grownCapacity,
    asObject (operands.getD 0 .nil) = .ok ownerId ∧ asObject (operands.getD 1 .nil) = .ok sourceId ∧
    h.checkedString sourceId = .ok source ∧
    h.checkedBuilder ownerId = .ok (slot, o, capacity, bytes) ∧
    builderCapacityForRequired capacity (bytes.length + source.length) = .ok grownCapacity ∧
    o.width < builderWidth grownCapacity ∧ h.Overruns slot o.width (builderWidth grownCapacity)

/-- A `builder_append` exceeds the capacity, and the growth overruns the slots of the heap that a
finished compaction leaves. -/
def Heap.BuilderAppendOverruns (h : Heap) (id : ObjectId) (source : Value) : Prop :=
  ∃ ownerId sourceId appended slot o capacity bytes,
    h.canonicalizeIncrementalCompactionRead (.object id) = .ok (.object ownerId) ∧
    h.canonicalizeIncrementalCompactionRead source = .ok (.object sourceId) ∧
    (∃ found, Object.requireObjectReferenceValue source "builder append operand" = .ok found) ∧
    h.checkedString sourceId = .ok appended ∧
    h.checkedBuilder ownerId = .ok (slot, o, capacity, bytes) ∧
    appended.length ≤ headerLimit - bytes.length ∧ capacity < bytes.length + appended.length ∧
    ∃ operands h', finishActiveCompaction [.object ownerId, .object sourceId] h = .ok operands h' ∧
      h'.AppendOverruns operands

theorem asObject_eq_ok {value : Value} {id : ObjectId} (hok : asObject value = .ok id) :
    value = .object id := by
  cases value with
  | object id' =>
    cases hok
    rfl
  | _ => exact nomatch hok

section Append

variable {h : Heap}

theorem wp_growBuilder_addressable {operands : List Value} (ha : h.Addressable)
    (hinside : ∀ operands' h', finishActiveCompaction operands h = .ok operands' h' →
      ¬h'.AppendOverruns operands') :
    wp (growBuilder operands) (fun _ => Heap.Addressable) (fun _ => Heap.Addressable) h := by
  have hfinish := LedgerInvariant.addressable.heapInvariant.finishActive operands h ha
  unfold growBuilder
  rw [wp_bind]
  apply wp_of_run
  · intro operands' h' hrun
    have ha' : h'.Addressable := wp_ok (Q := fun _ => Heap.Addressable) hrun hfinish
    refine wp_query_bind (fun ownerId howner => ?_) fun _ _ => ha'
    refine wp_query_bind (fun sourceId hsourceId => ?_) fun _ _ => ha'
    refine wp_query_bind (fun source hsource => ?_) fun _ _ => ha'
    refine wp_query_bind (fun builder hbuilder => ?_) fun _ _ => ha'
    obtain ⟨slot, o, capacity, bytes⟩ := builder
    refine wp_query_bind (fun grownCapacity hgrown => ?_) fun _ _ => ha'
    rw [wp_bind]
    have hensure : wp (ensureBuilderGrowthStorage ownerId (builderWidth grownCapacity) operands')
        (fun _ => Heap.Addressable) (fun _ => Heap.Addressable) h' := by
      unfold ensureBuilderGrowthStorage
      refine wp_query_ok hbuilder ?_
      apply wp_ite
      · exact fun _ => (wp_bind _ _).mpr ha'
      intro hwider
      apply wp_ensureGrowthStorage_addressable ha'
      · exact .bind (.query _) fun _ => relocateForGrowth_keepsAddressable _ _ _ _ _
      · intro hover
        exact hinside operands' h' hrun ⟨ownerId, sourceId, source, slot, o, capacity, bytes,
          grownCapacity, howner, hsourceId, hsource, hbuilder, hgrown, Nat.not_le.mp hwider, hover⟩
    apply wp_mono hensure
    · intro operands'' h'' ha''
      exact setGrownCapacity_preserves .addressable grownCapacity operands'' h'' ha''
    · exact fun _ _ ha'' => ha''
  · exact fun _ _ hrun => wp_error (E := fun _ => Heap.Addressable) hrun hfinish

theorem wp_builderAppend_addressable {id : ObjectId} {source : Value} (ha : h.Addressable)
    (hinside : ¬h.BuilderAppendOverruns id source) :
    wp (builderAppend id source) (fun _ => Heap.Addressable) (fun _ => Heap.Addressable) h := by
  refine wp_query_bind (fun owner howner => ?_) fun _ _ => ha
  refine wp_query_bind (fun found hfound => ?_) fun _ _ => ha
  refine wp_query_bind (fun source' hsource => ?_) fun _ _ => ha
  refine wp_query_bind (fun sourceId hsourceId => ?_) fun _ _ => ha
  refine wp_query_bind (fun ownerId hownerId => ?_) fun _ _ => ha
  refine wp_query_bind (fun appended happended => ?_) fun _ _ => ha
  refine wp_query_bind (fun builder hbuilder => ?_) fun _ _ => ha
  obtain ⟨slot, o, capacity, bytes⟩ := builder
  obtain rfl := asObject_eq_ok hsourceId
  obtain rfl := asObject_eq_ok hownerId
  apply wp_ite
  · exact fun _ => (wp_bind _ _).mpr ha
  intro hlength
  apply wp_ite
  · intro hfull
    rw [wp_bind]
    apply wp_mono (wp_growBuilder_addressable ha fun operands h' hrun hover => hinside
      ⟨ownerId, sourceId, appended, slot, o, capacity, bytes, howner, hsource, ⟨found, hfound⟩,
        happended, hbuilder, Nat.not_lt.mp hlength, hfull, operands, h', hrun, hover⟩)
    · exact fun operands h' ha' => publishAppended_preserves .addressable operands h' ha'
    · exact fun _ _ ha' => ha'
  · intro _
    exact Preserves.bind (.pure _) (publishAppended_preserves .addressable) h ha

end Append

/-! ## Growth past the last slot -/

section Outgrown

variable {h : Heap} {past : List (ObjectId × ℕ)}

theorem finishActiveCompaction_settled {cells cells' : List Value} {h' : Heap}
    (hh : IdentitiesHold past h) (hrun : finishActiveCompaction cells h = .ok cells' h') :
    h'.incrementalCompactionActive = false := by
  have hsettled : wp (finishActiveCompaction cells)
      (fun _ h' => h'.incrementalCompactionActive = false) (fun _ _ => True) h := by
    unfold finishActiveCompaction
    rw [wp_bind, wp_get]
    apply wp_ite
    · intro _
      apply wp_mono (finishIncrementalCompactionImpl_leavesCompaction
        GrowthInvariant.identities.toLedgerInvariant cells h hh)
      · exact fun _ _ ⟨_, hphase⟩ => Heap.incrementalCompactionActive_eq_false.mpr hphase
      · exact fun _ _ _ => trivial
    · intro hinactive
      rw [Bool.not_eq_true] at hinactive
      exact hinactive
  exact wp_ok (Q := fun _ h' => h'.incrementalCompactionActive = false) hrun hsettled

theorem MapSetOverruns.oversized {id : ObjectId} {key value : Value} (hh : IdentitiesHold past h)
    (hover : h.MapSetOverruns id key value) :
    wp (storeMapEntry id key value) (fun _ => Heap.Oversized) (fun _ => Heap.Oversized) h := by
  obtain ⟨hexisting, ⟨slot, o, m, hmap, hvalue⟩, operands, h', hrun, hinsertion⟩ := hover
  obtain ⟨ownerId, slot', o', m', howner, hmap', hroom, hover⟩ := hinsertion
  have hc := finishActiveCompaction_settled hh hrun
  unfold storeMapEntry
  refine wp_query_ok hexisting ?_
  refine wp_query_ok hmap ?_
  refine wp_query_ok hvalue ?_
  show wp (prepareMapInsertion _ _ _ >>= _) _ _ h
  rw [wp_bind]
  unfold prepareMapInsertion
  rw [wp_bind, wp_eq_ok hrun]
  refine wp_query_ok howner ?_
  refine wp_query_ok hmap' ?_
  apply wp_ite
  · exact fun hfull => absurd hroom (Nat.not_lt.mpr hfull)
  intro _
  unfold ensureMapGrowthStorage
  refine wp_query_ok hmap' ?_
  apply wp_mono (wp_ensureGrowthStorage_oversized hc hover)
  · intro operands' h'' ho
    refine Preserves.bind (.query _) (fun _ => ?_) h'' ho
    exact publishMapEntry_preserves .oversized finishActiveCompaction_oversized _ _ _ _
  · exact fun _ _ ho => ho

theorem BuilderAppendOverruns.oversized {id : ObjectId} {source : Value}
    (hh : IdentitiesHold past h) (hover : h.BuilderAppendOverruns id source) :
    wp (builderAppend id source) (fun _ => Heap.Oversized) (fun _ => Heap.Oversized) h := by
  obtain ⟨ownerId, sourceId, appended, slot, o, capacity, bytes, howner, hsource, ⟨_, hfound⟩,
    happended, hbuilder, hlength, hfull, operands, h', hrun, happend⟩ := hover
  obtain ⟨ownerId', sourceId', source', slot', o', capacity', bytes', grownCapacity, howner',
    hsourceId', hsource', hbuilder', hgrown, hwider, hover⟩ := happend
  have hc := finishActiveCompaction_settled hh hrun
  have hownerId : asObject (.object ownerId) = .ok ownerId := rfl
  have hsourceId : asObject (.object sourceId) = .ok sourceId := rfl
  unfold builderAppend
  refine wp_query_ok howner ?_
  refine wp_query_ok hfound ?_
  refine wp_query_ok hsource ?_
  refine wp_query_ok hsourceId ?_
  refine wp_query_ok hownerId ?_
  refine wp_query_ok happended ?_
  refine wp_query_ok hbuilder ?_
  apply wp_ite
  · exact fun hlong => absurd hlength (Nat.not_le.mpr hlong)
  intro _
  apply wp_ite
  · intro _
    rw [wp_bind]
    unfold growBuilder
    rw [wp_bind, wp_eq_ok hrun]
    refine wp_query_ok howner' ?_
    refine wp_query_ok hsourceId' ?_
    refine wp_query_ok hsource' ?_
    refine wp_query_ok hbuilder' ?_
    refine wp_query_ok hgrown ?_
    rw [wp_bind]
    unfold ensureBuilderGrowthStorage
    refine wp_query_ok hbuilder' ?_
    apply wp_ite
    · exact fun hnarrow => absurd hwider (Nat.not_lt.mpr hnarrow)
    intro _
    apply wp_mono (wp_ensureGrowthStorage_oversized hc hover)
    · intro operands' h'' ho
      -- the capacity and the bytes are written into the grown storage
      apply wp_mono (setGrownCapacity_preserves .oversized grownCapacity operands' h'' ho)
      · exact fun operands'' h₃ ho => publishAppended_preserves .oversized operands'' h₃ ho
      · exact fun _ _ ho => ho
    · exact fun _ _ ho => ho
  · exact fun hnot => absurd hfull hnot

end Outgrown

/-! ## Runs -/

/-- The action grows a map or a builder in place past the last slot an identifier can hold. -/
def Heap.Outgrows (h : Heap) : Action → Prop
  | .call (.mapSet id key value) => h.MapSetOverruns id key value
  | .call (.builderAppend id source) => h.BuilderAppendOverruns id source
  | _ => False

theorem after_addressable {h : Heap} {action : Action} (ha : h.Addressable)
    (hinside : ¬h.Outgrows action) : (action.after h).Addressable := by
  apply after_of_wp (I := Heap.Addressable)
  cases action with
  | setRoots cells => exact ha
  | call op =>
    cases hop : op.grows with
    | false => exact run_preserves LedgerInvariant.addressable.heapInvariant op hop h ha
    | true =>
      cases op with
      | mapSet id key value =>
        show wp (storeMapEntry id key value >>= _) _ _ h
        rw [wp_bind]
        exact wp_storeMapEntry_addressable ha hinside
      | builderAppend id source =>
        show wp (builderAppend id source >>= _) _ _ h
        rw [wp_bind]
        exact wp_builderAppend_addressable ha hinside
      | _ => exact nomatch hop

theorem after_oversized {h : Heap} {action : Action} {past : List (ObjectId × ℕ)}
    (hh : IdentitiesHold past h) (hover : h.Outgrows action) : (action.after h).Oversized := by
  apply after_of_wp (I := Heap.Oversized)
  cases action with
  | setRoots cells => exact hover.elim
  | call op =>
    cases op with
    | mapSet id key value =>
      show wp (storeMapEntry id key value >>= _) _ _ h
      rw [wp_bind]
      exact MapSetOverruns.oversized hh hover
    | builderAppend id source =>
      show wp (builderAppend id source >>= _) _ _ h
      rw [wp_bind]
      exact BuilderAppendOverruns.oversized hh hover
    | _ => exact hover.elim

/-! ## Slot numbers fit -/

/-- Every base slot fits an identifier, the unsigned slot limit test has the value it has over the
integers, and a request that needs a slot past the limit throws before it changes the heap. -/
structure Heap.SlotsFit (h : Heap) : Prop where
  bases : ∀ slot o, h.objectAt slot = some o → slot < slotNumbers
  tests : (slotsLeft h.objects.length : ℤ) = (headerLimit : ℤ) - h.objects.length + 1
  reserves : ∀ requiredSlots baseSlot h', 0 < requiredSlots →
    reserveStorageRun requiredSlots h = .ok baseSlot h' → baseSlot < slotNumbers
  refuses : ∀ payload descriptor, validateDescriptorShape payload = .ok descriptor →
    h.findFreeStorageRun descriptor.val.storageSlotCount = none →
    slotNumbers < h.objects.length + descriptor.val.storageSlotCount →
    placeObject payload h = .error (.lengthError "heap object slot limit exceeded") h
  relocates : ∀ ownerId requiredWidth growthRoots limitMessage worklistMessage growthRoots' h',
    relocateForGrowth ownerId requiredWidth growthRoots limitMessage worklistMessage h =
      .ok growthRoots' h' → h.objects.length < slotNumbers
  refusesRelocation : ∀ ownerId requiredWidth growthRoots limitMessage worklistMessage found,
    h.resolve ownerId = .ok found → slotNumbers < h.objects.length + requiredWidth →
    relocateForGrowth ownerId requiredWidth growthRoots limitMessage worklistMessage h =
      .error (.lengthError limitMessage) h

namespace Heap

variable {h : Heap}

theorem SlotsFit.addressable (hs : h.SlotsFit) : h.Addressable := by
  have htest := hs.tests
  unfold Addressable
  simp only [headerLimit, slotNumbers] at htest ⊢
  omega

theorem Addressable.slotsFit (ha : h.Addressable) : h.SlotsFit := by
  have hsize : h.objects.length ≤ slotNumbers := ha
  have hleft := slotsLeft_eq hsize
  have hlimit : slotNumbers = headerLimit + 1 := by decide
  refine ⟨?_, ?_, ?_, ?_, ?_, ?_⟩
  · exact fun slot o ho => (lt_length_of_objectAt ho).trans_le hsize
  · rw [hleft, hlimit]
    omega
  · intro requiredSlots baseSlot h' hpos hrun
    have hreserve : wp (reserveStorageRun requiredSlots) (fun baseSlot _ => baseSlot < slotNumbers)
        (fun _ _ => True) h := by
      unfold reserveStorageRun
      rw [wp_bind, wp_get]
      split
      · next base hbase => exact (findFreeStorageRun_lt hbase).trans_le hsize
      · apply wp_ite
        · exact fun _ => (wp_bind _ _).mpr trivial
        intro hroom
        rw [wp_bind, wp_set, wp_pure]
        omega
    exact wp_ok (Q := fun baseSlot _ => baseSlot < slotNumbers) hrun hreserve
  · intro payload descriptor hshape hfree hpast
    apply run_eq_error
    unfold placeObject
    refine wp_query_ok hshape ?_
    unfold reserveStorageRun
    rw [wp_bind, wp_bind, wp_get, hfree]
    apply wp_ite
    · exact fun _ => (wp_bind _ _).mpr ⟨rfl, rfl⟩
    · exact fun hroom => absurd hpast (by omega)
  · intro ownerId requiredWidth growthRoots limitMessage worklistMessage growthRoots' h' hrun
    have hrelocate : wp
        (relocateForGrowth ownerId requiredWidth growthRoots limitMessage worklistMessage)
        (fun _ _ => h.objects.length < slotNumbers) (fun _ _ => True) h := by
      apply wp_query_bind
      · intro found _
        rw [wp_bind, wp_get]
        apply wp_ite
        · exact fun _ => (wp_bind _ _).mpr trivial
        intro hlimit
        have hroom : h.objects.length < slotNumbers := by omega
        exact wp_of_run (fun _ _ _ => hroom) fun _ _ _ => trivial
      · exact fun _ _ => trivial
    exact wp_ok (Q := fun _ _ => h.objects.length < slotNumbers) hrun hrelocate
  · intro ownerId requiredWidth growthRoots limitMessage worklistMessage found hr hpast
    apply run_eq_error
    unfold relocateForGrowth
    refine wp_query_ok hr ?_
    rw [wp_bind, wp_get]
    apply wp_ite
    · exact fun _ => (wp_bind _ _).mpr ⟨rfl, rfl⟩
    · exact fun hroom => absurd hpast (by omega)

theorem slotsFit_iff : h.SlotsFit ↔ h.Addressable := ⟨SlotsFit.addressable, Addressable.slotsFit⟩

/-- In every run from an empty heap, with any arguments, each state reached has slot numbers that
fit an identifier exactly when no step grows a map or a builder in place past the last slot. -/
theorem slotsFit_run (config : StressConfig) (actions : List Action) :
    (∀ before later, actions = before ++ later → ((Heap.empty config).run before).SlotsFit) ↔
      Meets (fun h action => action.after h) (fun h action => ¬h.Outgrows action)
        (Heap.empty config) actions := by
  have hempty : (Heap.empty config).Addressable := Nat.zero_le _
  constructor
  · -- the state after a step that outgrows the limit is oversized
    intro hfit
    have hsteps : ∀ later before, actions = before ++ later →
        Meets (fun h action => action.after h) (fun h action => ¬h.Outgrows action)
          ((Heap.empty config).run before) later := by
      intro later
      induction later with
      | nil => exact fun _ _ => trivial
      | cons action later ih =>
        intro before heq
        have heq' : actions = (before ++ [action]) ++ later := by simpa using heq
        have hrest := ih (before ++ [action]) heq'
        rw [run_concat] at hrest
        refine ⟨fun hover => ?_, hrest⟩
        have hidentities := run_identitiesHold (empty_identitiesHold config) before
        have hoversized := after_oversized hidentities hover
        have hafter := (hfit (before ++ [action]) later heq').addressable
        rw [run_concat] at hafter
        exact absurd hoversized.slots (Nat.not_lt.mpr hafter)
    exact hsteps actions [] rfl
  · intro hmeets before later heq
    rw [heq, meets_append] at hmeets
    have hbefore : ((Heap.empty config).run before).Addressable :=
      hmeets.1.invariant (fun _ _ ha hinside => after_addressable ha hinside) hempty
    exact hbefore.slotsFit

/-- The next allocation of an outgrown heap takes a base slot past the limit. -/
theorem Spans.reserveStorageRun (hs : h.Spans headerLimit 1) :
    slotsLeft h.objects.length = 2 ^ 64 - 2 ∧
      reserveStorageRun 1 h = .ok h.objects.length (h.resize (h.objects.length + 1)) := by
  have hsize : h.objects.length = slotNumbers + 2 := hs.size
  have hleft : slotsLeft h.objects.length = 2 ^ 64 - 2 := by
    rw [hsize]
    decide
  have hget : (get : HeapM Heap) h = .ok h h := rfl
  refine ⟨hleft, ?_⟩
  unfold Gc.reserveStorageRun
  rw [bind_run_ok hget, hs.findFreeStorageRun]
  dsimp only
  rw [hleft, if_neg (by decide)]
  rfl

/-- A map behind an array over the other slots grows in place past the last slot, and the next
allocation passes the slot limit test and takes a base slot past the limit. -/
theorem slotsFit_outgrown :
    let h := (Heap.empty .quiet).run (outgrowing headerLimit)
    ¬h.SlotsFit ∧ slotsLeft h.objects.length = 2 ^ 64 - 2 ∧
      ∃ baseSlot h', reserveStorageRun 1 h = .ok baseSlot h' ∧ slotNumbers < baseSlot := by
  have hpos : 0 < headerLimit := by decide
  have hspans := spans_outgrowing hpos le_rfl
  have hsize := hspans.size
  obtain ⟨hleft, hreserve⟩ := hspans.reserveStorageRun
  have hlimit : slotNumbers = headerLimit + 1 := by decide
  refine ⟨fun hfit => ?_, hleft, _, _, hreserve, by omega⟩
  have haddressable := hfit.addressable
  unfold Addressable at haddressable
  omega

end Heap

end LanguageRuntime.Gc
