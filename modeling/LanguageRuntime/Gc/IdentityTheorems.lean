import LanguageRuntime.Gc.IdentityCollect

/-!
# Identifiers are never recycled

`Heap.IdentitiesHold` holds in every heap the public operations reach: an identifier names the
object it was issued for or nothing.
-/

namespace LanguageRuntime.Gc

open LanguageRuntime LanguageRuntime.Library Heap

variable {past : List (ObjectId × ℕ)}

/-! ## Runs -/

theorem run_identitiesHold {h : Heap} (hh : IdentitiesHold past h) (actions : List Action) :
    IdentitiesHold past (h.run actions) :=
  GrowthInvariant.identities.runs hh actions

theorem empty_identitiesHold (config : StressConfig) : IdentitiesHold [] (Heap.empty config) where
  kept := List.nil_subset _
  sound _ := by
    refine ⟨⟨?_, ?_, ?_, ?_⟩, ?_, rfl, nofun⟩
    · rintro id k k' ⟨⟩
    · rintro slot g k ⟨⟩
    · rintro slot k hk
      simp [Heap.ledger, slotLedger, serials, Heap.empty] at hk
    · rintro slot slot' k hk
      simp [Heap.ledger, slotLedger, serials, Heap.empty] at hk
    · rintro p ⟨⟩

/-- Whatever has been issued stays issued. -/
theorem issued_run {h : Heap} (hh : IdentitiesHold [] h) (actions : List Action) :
    IdentitiesHold h.issued (h.run actions) :=
  run_identitiesHold ⟨hh.sound, List.Subset.refl _⟩ actions

/-! ## The identifiers an operation returns -/

/-- The program returns an identifier that resolves, in a heap of a proper size. -/
def ReturnsCurrent (m : HeapM ObjectId) : Prop :=
  ∀ h, IdentitiesHold [] h → wp m
    (fun id h' => h'.objects.length ≤ slotNumbers → ∃ found, h'.resolve id = .ok found)
    (fun _ _ => True) h

theorem ReturnsCurrent.bind {α : Type} {m : HeapM α} {f : α → HeapM ObjectId}
    (hm : Preserves (IdentitiesHold []) m) (hf : ∀ a, ReturnsCurrent (f a)) : ReturnsCurrent (m >>= f) :=
  fun _ hh => hm.wp_bind hh (fun a h' hh' => hf a h' hh') fun _ _ _ => trivial

theorem ReturnsCurrent.guard {β : Type} {c : Prop} [Decidable c] {e : HeapError}
    {f : β → HeapM ObjectId} {m : HeapM ObjectId} (hm : ReturnsCurrent m) :
    ReturnsCurrent (if c then (throw e : HeapM β) >>= f else m) := fun h hh =>
  wp_ite (fun _ => (wp_bind _ _).mpr trivial) fun _ => hm h hh

theorem placeObject_current (payload : Payload) {h : Heap} (hh : IdentitiesHold [] h) :
    wp (placeObject payload)
      (fun id h' => h'.objects.length ≤ slotNumbers → ∃ found, h'.resolve id = .ok found)
      (fun _ _ => True) h := by
  refine wp_query_bind (fun descriptor _ => ?_) fun _ _ => trivial
  rw [wp_bind]
  refine wp_mono (slot_reserveStorageRun GrowthInvariant.identities.toLedgerInvariant _ h descriptor.val.storageSlotCount_pos hh)
    (fun baseSlot h' ⟨hh', hbase, _⟩ => ?_) fun _ _ _ => trivial
  refine wp_query_bind (fun generation hgeneration => ?_) fun _ _ => trivial
  rw [wp_bind, wp_modify]
  intro hsize
  have hlength : (h'.installObject descriptor baseSlot generation).objects.length =
      h'.objects.length := List.length_set
  rw [hlength] at hsize
  rw [makeObjectId_of_lt _ (hbase.trans_le hsize)]
  have hnonzero : generation ≠ 0 := by
    have := lt_of_generationForNewBase hgeneration
    omega
  have hcurrent : (h'.installObject descriptor baseSlot generation).generationAt baseSlot =
      generation := getD_set_self _ _ ((hh'.sound hsize).lengths.symm ▸ hbase)
  have hobject : (h'.installObject descriptor baseSlot generation).objectAt baseSlot =
      some ⟨false, .young, descriptor.val, descriptor.property, h'.nextSerial⟩ :=
    getD_set_self _ _ hbase
  exact ⟨_, resolve_of_lookup (lookup_eq_some.mpr ⟨hnonzero, hcurrent, hobject⟩)⟩

theorem allocateObject_current (descriptor : Descriptor) :
    ReturnsCurrent (allocateObject descriptor) := by
  intro h hh
  refine Preserves.get.wp_bind hh (fun h₀ h hh => ?_) fun _ _ _ => trivial
  refine wp_ite (fun _ => ?_) fun _ => placeObject_current _ hh
  exact (finishIncrementalCompactionImpl_preserves GrowthInvariant.identities.toLedgerInvariant _).wp_bind hh
    (fun _ _ hh => placeObject_current _ hh) fun _ _ _ => trivial

/-- A collection checks the cells of its caller before it returns them. -/
theorem collectWithExtraRoots_checked (operands : List Value) (h : Heap) :
    wp (collectWithExtraRoots operands)
      (fun cells h' => ∀ id, .object id ∈ cells → ∃ found, h'.resolve id = .ok found)
      (fun _ _ => True) h := by
  have hlast : ∀ (kind : CollectionKind) (operands : List Value) (h : Heap),
      wp (compactMarkedObjects kind operands)
        (fun cells h' => ∀ id, .object id ∈ cells → ∃ found, h'.resolve id = .ok found)
        (fun _ _ => True) h := by
    intro kind operands h
    have htrue : ∀ (e : HeapError) (h : Heap), True := fun _ _ => trivial
    refine wp_bind_forall (fun _ _ => wp_bind_forall (fun cells _ => ?_) htrue) htrue
    refine wp_bind_forall (fun _ _ => wp_bind_forall (fun _ _ => ?_) htrue) htrue
    refine wp_bind_forall (fun _ _ => wp_bind_forall (fun _ _ => ?_) htrue) htrue
    refine wp_bind_forall (fun _ _ => wp_bind_forall (fun _ _ => ?_) htrue) htrue
    refine wp_bind_forall (fun _ h' => wp_query_bind (fun _ hvalid => ?_) fun _ _ => trivial) htrue
    intro id hid
    refine validateValue_object.mp (validateValue_of_validateAfterCollection hvalid _ ?_)
    exact List.mem_append_right _ hid
  exact wp_bind_forall (fun _ _ => wp_bind_forall (fun _ _ => wp_bind_forall (fun _ _ =>
    hlast _ _ _) fun _ _ => trivial) fun _ _ => trivial) fun _ _ => trivial

theorem collectAfterAllocation_current {id : ObjectId} {h : Heap}
    (hid : h.objects.length ≤ slotNumbers → ∃ found, h.resolve id = .ok found) :
    wp (collectAfterAllocation id)
      (fun id h' => h'.objects.length ≤ slotNumbers → ∃ found, h'.resolve id = .ok found)
      (fun _ _ => True) h := by
  unfold collectAfterAllocation
  rw [wp_bind, wp_get]
  refine wp_ite (fun _ => ?_) fun _ => hid
  rw [wp_bind]
  refine wp_mono (collectWithExtraRoots_checked _ h) (fun cells h' hcells => ?_) fun _ _ _ => trivial
  split
  · next id => exact fun _ => hcells id (List.mem_singleton.mpr rfl)
  · trivial

theorem allocateDescriptor_current (descriptor : Except HeapError Descriptor) :
    ReturnsCurrent (allocateDescriptor descriptor) :=
  .bind (.query _) fun descriptor h hh => by
    rw [wp_bind]
    exact wp_mono (allocateObject_current descriptor h hh)
      (fun _ _ hid => collectAfterAllocation_current hid) fun _ _ _ => trivial

theorem allocate_current (operands : List Value)
    (descriptor : List Value → Except HeapError Descriptor) :
    ReturnsCurrent (do
      let operands ← collectBeforeAllocation operands
      allocateDescriptor (descriptor operands)) :=
  .bind (collectBeforeAllocation_preserves GrowthInvariant.identities.heapInvariant _) fun _ => allocateDescriptor_current _

theorem findInterned_resolves {h : Heap} {contentHash : UInt64} {source existing : ObjectId}
    {entries : List InternEntry} (hf : h.findInterned contentHash source entries = .ok (some existing)) :
    ∃ found, h.resolve existing = .ok found := by
  induction entries with
  | nil => exact nomatch hf
  | cons entry entries ih =>
    unfold findInterned at hf
    split at hf
    · obtain ⟨equal, hequal, hf⟩ := bind_eq_ok.mp hf
      split at hf
      · cases hf
        obtain ⟨_, hbytes, -⟩ := bind_eq_ok.mp hequal
        obtain ⟨found, hfound, -⟩ := bind_eq_ok.mp hbytes
        exact ⟨found, hfound⟩
      · exact ih hf
    · exact ih hf

theorem internString_current (source : Value) : ReturnsCurrent (internString source) := by
  refine .bind (.query _) fun _ => .bind (GrowthInvariant.identities.heapInvariant.finishActive _) fun _ => ?_
  refine .bind (.query _) fun _ => .bind (.query _) fun contentHash => ?_
  intro h hh
  refine wp_query_bind (fun existing hexisting => ?_) fun _ _ => trivial
  cases existing with
  | some existing =>
    have hfound := findInterned_resolves hexisting
    unfold shadeInterned
    rw [wp_bind, wp_bind, wp_get]
    split
    · next worklist hphase =>
      refine wp_query_bind (fun worklist' _ => ?_) fun _ _ => trivial
      intro _
      obtain ⟨⟨slot, o⟩, hr⟩ := hfound
      rcases resolve_eq_ok hr with ⟨hl, -⟩ | ⟨-, c, _, hc, -⟩
      · exact ⟨_, resolve_of_lookup hl⟩
      · rw [hphase] at hc
        exact nomatch hc
    · exact fun _ => hfound
  | none =>
    refine ReturnsCurrent.bind (collectBeforeAllocation_preserves GrowthInvariant.identities.heapInvariant _) (fun _ =>
      .bind (.query _) fun _ h hh => ?_) h hh
    rw [wp_bind]
    refine wp_mono (allocateDescriptor_current _ h hh) (fun id h' hid => ?_) fun _ _ _ => trivial
    rw [wp_bind, wp_modify]
    exact wp_query_bind (fun _ _ => hid) fun _ _ => trivial

/-- An operation that returns an identifier returns one that resolves. -/
theorem run_returnsCurrent (op : Operation) (h : Heap) (hh : IdentitiesHold [] h) :
    wp op.run (fun id h' => ∀ id', id = some id' → h'.objects.length ≤ slotNumbers →
      ∃ found, h'.resolve id' = .ok found) (fun _ _ => True) h := by
  have hreturn : ∀ {m : HeapM ObjectId}, ReturnsCurrent m →
      wp (some <$> m) (fun id h' => ∀ id', id = some id' → h'.objects.length ≤ slotNumbers →
        ∃ found, h'.resolve id' = .ok found) (fun _ _ => True) h := by
    intro m hm
    rw [wp_map]
    exact wp_mono (hm h hh) (fun id h' hid id' heq => Option.some.inj heq ▸ hid) fun _ _ _ => trivial
  cases op with
  | allocatePair left right => exact hreturn (allocate_current _ _)
  | allocateScalarArray length init => exact hreturn (allocate_current _ _)
  | allocateRefArray length init => exact hreturn (.bind (.query _) fun _ => allocate_current _ _)
  | allocateString bytes => exact hreturn (allocate_current _ _)
  | allocateStringConcat left right =>
    exact hreturn (.bind (.query _) fun _ => .bind (.query _) fun _ =>
      .bind (collectBeforeAllocation_preserves GrowthInvariant.identities.heapInvariant _) fun _ => .bind (.query _) fun _ =>
        .bind (.query _) fun _ => .guard (allocateDescriptor_current _))
  | allocateStringSubstring source lo hi =>
    exact hreturn (.bind (.query _) fun _ => .bind (collectBeforeAllocation_preserves GrowthInvariant.identities.heapInvariant _)
      fun _ => .bind (.query _) fun _ => allocateDescriptor_current _)
  | internString source => exact hreturn (internString_current source)
  | allocateClosure l fn captures captureMap =>
    exact hreturn (.guard (.bind (.query _) fun _ => allocate_current _ _))
  | allocateMap l keyIsRef valueIsRef => exact hreturn (allocate_current _ _)
  | allocateWeak target =>
    exact hreturn (.bind (.query _) fun _ => .bind (.query _) fun _ => allocate_current _ _)
  | allocateEphemeron key value valueIsRef =>
    exact hreturn (.bind (.query _) fun _ => allocate_current _ _)
  | allocateBuilder => exact hreturn (allocate_current _ _)
  | builderToString builder =>
    exact hreturn (.bind (.query _) fun _ => .bind (.query _) fun _ =>
      .bind (GrowthInvariant.identities.heapInvariant.finishActive _) fun _ =>
        .bind (collectBeforeAllocation_preserves GrowthInvariant.identities.heapInvariant _) fun _ => .bind (.query _) fun _ =>
          .bind (.query _) fun _ => allocateDescriptor_current _)
  | allocateRecord l fields refMap =>
    exact hreturn (.guard (.bind (.query _) fun _ => allocate_current _ _))
  | allocateVariant l c fields caseRefMaps =>
    exact hreturn (.bind (.query _) fun _ => allocate_current _ _)
  | _ => exact wp_bind_forall (fun _ _ => nofun) fun _ _ => trivial

/-! ## No identifier is recycled -/

/-- The identifier resolves to the object with the serial number `k`. -/
def Heap.Names (h : Heap) (id : ObjectId) (k : ℕ) : Prop :=
  ∃ slot o, h.resolve id = .ok (slot, o) ∧ o.serial = k

instance (h : Heap) (id : ObjectId) (k : ℕ) : Decidable (h.Names id k) :=
  match hr : h.resolve id with
  | .ok (slot, o) =>
    if hk : o.serial = k then .isTrue ⟨slot, o, hr, hk⟩
    else .isFalse fun ⟨_, _, hr', hk'⟩ => hk (by rw [hr] at hr'; cases hr'; exact hk')
  | .error _ => .isFalse fun ⟨_, _, hr', _⟩ => by rw [hr] at hr'; exact nomatch hr'

/-- Take two heaps of one run. The objects of the first are told apart by their serial
numbers, hold identifiers issued to them, and are the only ones its identifiers name; an
identifier an operation hands out names an object. In the second heap no identifier issued
up to the first names any other object than the one it was issued for, and no identifier has
been issued to two objects. -/
theorem identifiers_never_recycled (config : StressConfig) (past future : List Action)
    (hpast : ((Heap.empty config).run past).objects.length < slotNumbers)
    (hfuture : (((Heap.empty config).run past).run future).objects.length < slotNumbers) :
    let h := (Heap.empty config).run past
    let h' := h.run future
    (∀ slot slot' o o', h.objectAt slot = some o → h.objectAt slot' = some o' →
      o.serial = o'.serial → slot = slot') ∧
    (∀ slot o, h.objectAt slot = some o → (h.currentId slot, o.serial) ∈ h.issued) ∧
    (∀ id k, h.Names id k → (id, k) ∈ h.issued) ∧
    (∀ (op : Operation) id h₁, op.run h = .ok (some id) h₁ → h₁.objects.length < slotNumbers →
      ∃ k, h₁.Names id k) ∧
    (∀ id k, (id, k) ∈ h.issued → ∀ k', h'.Names id k' → k' = k) ∧
    (∀ id k k', (id, k) ∈ h'.issued → (id, k') ∈ h'.issued → k = k') := by
  intro h h'
  have hh : IdentitiesHold [] h := run_identitiesHold (empty_identitiesHold config) past
  have hh' : IdentitiesHold h.issued h' := issued_run hh future
  have hs := hh.sound hpast.le
  have hs' := hh'.sound hfuture.le
  refine ⟨?_, ?_, ?_, ?_, ?_, ?_⟩
  · intro slot slot' o o' ho ho' heq
    exact hs.owners.unique slot slot' o.serial (occupant_ledger ho) (heq ▸ occupant_ledger ho')
  · exact fun slot o ho => hs.issued_currentId hpast.le ho
  · rintro id k ⟨slot, o, hr, rfl⟩
    exact hs.issued_of_resolve hpast.le hr
  · intro op id h₁ hop hsize
    obtain ⟨⟨slot, o⟩, hr⟩ := wp_ok hop (run_returnsCurrent op h hh) id rfl hsize.le
    exact ⟨o.serial, slot, o, hr, rfl⟩
  · rintro id k hk k' ⟨slot, o, hr, rfl⟩
    exact hs'.owners.functional (id.slot, id.generation) _ _ (hs'.issued_of_resolve hfuture.le hr)
      (hh'.kept hk)
  · exact fun id k k' hk hk' => hs'.owners.functional (id.slot, id.generation) k k' hk hk'

/-- A run in which a slot changes hands: the first pair dies, the second moves into its slot
and a third is allocated where the second was. -/
theorem identifiers_never_recycled_slotReuse :
    let past : List Action := [.call (.allocatePair .nil .nil), .call (.allocatePair .nil .nil)]
    let future : List Action := [.setRoots [.object ⟨1, 1⟩], .call .collect,
      .call (.allocatePair .nil .nil)]
    let h := (Heap.empty .quiet).run past
    let h' := h.run future
    (⟨0, 1⟩, 0) ∈ h.issued ∧ h'.Names ⟨0, 2⟩ 1 ∧ h'.Names ⟨1, 2⟩ 2 ∧
      (∀ k', h'.Names ⟨0, 1⟩ k' → k' = 0) :=
  ⟨by decide +kernel, by decide +kernel, by decide +kernel,
    (identifiers_never_recycled .quiet _ _ (by decide +kernel) (by decide +kernel)).2.2.2.2.1
      ⟨0, 1⟩ 0 (by decide +kernel)⟩

end LanguageRuntime.Gc
