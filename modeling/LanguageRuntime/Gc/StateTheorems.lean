import LanguageRuntime.Gc.Operation
import LanguageRuntime.Library.Tables

/-!
# Lemmas about the state of the heap

What the accessors of the heap see of every elementary update, and what it means that an
identifier resolves.
-/

namespace LanguageRuntime.Gc

open LanguageRuntime LanguageRuntime.Library

theorem makeObjectId_of_lt {slot : ℕ} (generation : ℕ) (h : slot < slotNumbers) :
    makeObjectId slot generation = ⟨slot, generation⟩ := by
  rw [makeObjectId, Nat.mod_eq_of_lt h]

@[simp] theorem generation_makeObjectId (slot generation : ℕ) :
    (makeObjectId slot generation).generation = generation := rfl

/-- A base slot is given a generation above the one it has. -/
theorem lt_of_generationForNewBase {g g' : ℕ} (h : generationForNewBase g = .ok g') : g < g' := by
  unfold generationForNewBase nextGeneration at h
  split at h
  · cases h
    simp_all [kFirstGeneration]
  · split at h
    · exact nomatch h
    · cases h
      omega

/-- A base that moves gets a generation above the one its slot has, and one that stays keeps
it. -/
theorem destinationGeneration_eq_ok {source destination g g' : ℕ}
    (h : destinationGeneration source destination g = .ok g') :
    source ≠ destination ∧ g < g' ∨ source = destination ∧ g' = g := by
  unfold destinationGeneration at h
  split at h
  · next hne => exact .inl ⟨hne, lt_of_generationForNewBase h⟩
  · next heq =>
    cases h
    exact .inr ⟨Decidable.not_not.mp heq, rfl⟩

namespace Object

@[simp] theorem serial_promote (o : Object) : o.promote.serial = o.serial := rfl

@[simp] theorem serial_mapReferenceFields (f : ObjectId → ObjectId) (o : Object) :
    (o.mapReferenceFields f).serial = o.serial := rfl

@[simp] theorem serial_forwardWeakTarget (f : ObjectId → Option ObjectId) (o : Object) :
    (o.forwardWeakTarget f).serial = o.serial := rfl

@[simp] theorem serial_forwardEphemeron (f : ObjectId → Option ObjectId) (o : Object) :
    (o.forwardEphemeron f).serial = o.serial := rfl

@[simp] theorem serial_forwardFields (f : ObjectId → ObjectId) (o : Object) :
    (o.forwardFields f).serial = o.serial := rfl

@[simp] theorem serial_withPayload (o : Object) (descriptor : Descriptor) :
    (o.withPayload descriptor).serial = o.serial := rfl

end Object

namespace Heap

/-! ## The accessors -/

theorem lt_length_of_objectAt {h : Heap} {slot : ℕ} {o : Object} (ho : h.objectAt slot = some o) :
    slot < h.objects.length :=
  lt_length_of_getD_eq_some ho

theorem objectAt_eq_none {h : Heap} {slot : ℕ} (hslot : h.objects.length ≤ slot) :
    h.objectAt slot = none := List.getD_eq_default _ _ hslot

theorem mem_objects_of_objectAt {h : Heap} {slot : ℕ} {o : Object}
    (ho : h.objectAt slot = some o) : some o ∈ h.objects := by
  have hlt := lt_length_of_objectAt ho
  rw [objectAt, List.getD_eq_getElem _ _ hlt] at ho
  exact ho ▸ List.getElem_mem hlt

theorem objectAt_putObject {h : Heap} {slot : ℕ} (o : Object) (hslot : slot < h.objects.length)
    (slot' : ℕ) :
    (h.putObject slot o).objectAt slot' = if slot' = slot then some o else h.objectAt slot' := by
  show (h.objects.set slot (some o)).getD slot' none = _
  rw [getD_set]
  by_cases hs : slot' = slot
  · simp [hs, hslot]
  · rw [if_neg fun h => hs h.1.symm, if_neg hs]
    rfl

@[simp] theorem generationAt_putObject (h : Heap) (slot : ℕ) (o : Object) (slot' : ℕ) :
    (h.putObject slot o).generationAt slot' = h.generationAt slot' := rfl

@[simp] theorem length_objects_putObject (h : Heap) (slot : ℕ) (o : Object) :
    (h.putObject slot o).objects.length = h.objects.length := List.length_set

@[simp] theorem objectAt_resize (h : Heap) (size slot : ℕ) :
    (h.resize size).objectAt slot = h.objectAt slot := getD_append_default _ _ _ _

@[simp] theorem generationAt_resize (h : Heap) (size slot : ℕ) :
    (h.resize size).generationAt slot = h.generationAt slot := getD_append_default _ _ _ _

theorem length_objects_resize (h : Heap) (size : ℕ) :
    (h.resize size).objects.length = max h.objects.length size := by
  simp only [resize, List.length_append, List.length_replicate]
  omega

theorem length_generations_resize (h : Heap) (size : ℕ) :
    (h.resize size).generations.length = max h.generations.length size := by
  simp only [resize, List.length_append, List.length_replicate]
  omega

@[simp] theorem objectAt_clearMarks (h : Heap) (slot : ℕ) :
    h.clearMarks.objectAt slot = (h.objectAt slot).map fun o => { o with marked := false } :=
  getD_map_option _ _ _

theorem objectAt_sweepObjects (h : Heap) (slot : ℕ) :
    h.sweepObjects.objectAt slot = (h.objectAt slot).bind fun o =>
      if o.marked then some { o with marked := false } else none :=
  getD_bind_option _ _ _

theorem currentId_eq {h : Heap} {slot : ℕ} (hslot : slot < slotNumbers) :
    h.currentId slot = ⟨slot, h.generationAt slot⟩ := makeObjectId_of_lt _ hslot

/-! ## Lookup -/

theorem lookup_eq_some {h : Heap} {id : ObjectId} {o : Object} :
    h.lookup id = some o ↔
      id.generation ≠ 0 ∧ h.generationAt id.slot = id.generation ∧ h.objectAt id.slot = some o := by
  unfold lookup
  by_cases hid : id.generation ≠ 0 ∧ h.generationAt id.slot = id.generation
  · rw [if_pos hid]
    exact ⟨fun ho => ⟨hid.1, hid.2, ho⟩, fun ho => ho.2.2⟩
  · rw [if_neg hid]
    exact ⟨fun ho => (nomatch ho), fun ho => absurd ⟨ho.1, ho.2.1⟩ hid⟩

theorem resolve_of_lookup {h : Heap} {id : ObjectId} {o : Object} (ho : h.lookup id = some o) :
    h.resolve id = .ok (id.slot, o) := by
  unfold resolve
  rw [ho]

/-- An identifier resolves because it is the current one or because it has been forwarded to
the current one. -/
theorem resolve_eq_ok {h : Heap} {id : ObjectId} {slot : ℕ} {o : Object}
    (hr : h.resolve id = .ok (slot, o)) :
    h.lookup id = some o ∧ slot = id.slot ∨
      h.lookup id = none ∧ ∃ c destination, h.phase = .compacting c ∧
        c.forwarded id = some destination ∧ h.lookup destination = some o ∧
        slot = destination.slot := by
  unfold resolve at hr
  split at hr
  · next object hl =>
    cases hr
    exact .inl ⟨hl, rfl⟩
  · next hl =>
    split at hr
    · next c hc =>
      split at hr
      · next destination hd =>
        split at hr
        · next object hl' =>
          cases hr
          exact .inr ⟨hl, c, destination, hc, hd, hl', rfl⟩
        · exact nomatch hr
      · exact nomatch hr
    · exact nomatch hr

theorem objectAt_of_resolve {h : Heap} {id : ObjectId} {slot : ℕ} {o : Object}
    (hr : h.resolve id = .ok (slot, o)) : h.objectAt slot = some o := by
  rcases resolve_eq_ok hr with ⟨hl, rfl⟩ | ⟨-, c, destination, -, -, hl, rfl⟩
  · exact (lookup_eq_some.mp hl).2.2
  · exact (lookup_eq_some.mp hl).2.2

theorem checkedSlot_eq_ok {h : Heap} {id : ObjectId} {slot : ℕ} :
    h.checkedSlot id = .ok slot ↔ ∃ o, h.resolve id = .ok (slot, o) := by
  unfold checkedSlot
  constructor
  · intro hs
    cases hr : h.resolve id with
    | error e => rw [hr] at hs; exact nomatch hs
    | ok found =>
      rw [hr] at hs
      obtain ⟨slot', o⟩ := found
      cases hs
      exact ⟨o, rfl⟩
  · rintro ⟨o, hr⟩
    rw [hr]
    rfl

theorem validateValue_object {h : Heap} {id : ObjectId} :
    h.validateValue (.object id) = .ok () ↔ ∃ found, h.resolve id = .ok found := by
  show (h.checkedSlot id >>= fun _ => pure ()) = .ok () ↔ _
  rw [bind_eq_ok]
  constructor
  · rintro ⟨slot, hslot, -⟩
    obtain ⟨o, hr⟩ := checkedSlot_eq_ok.mp hslot
    exact ⟨_, hr⟩
  · rintro ⟨⟨slot, o⟩, hr⟩
    exact ⟨slot, checkedSlot_eq_ok.mpr ⟨o, hr⟩, rfl⟩

/-- A collection that returns has checked its roots. -/
theorem validateValue_of_validateAfterCollection {h : Heap} {extraRoots : List Value}
    (hv : h.validateAfterCollection extraRoots = .ok ()) :
    ∀ value ∈ h.traceCollectionRoots extraRoots, h.validateValue value = .ok () := by
  unfold validateAfterCollection at hv
  obtain ⟨_, -, hv⟩ := bind_eq_ok.mp hv
  obtain ⟨_, hroots, -⟩ := bind_eq_ok.mp hv
  exact forM_eq_ok.mp hroots

end Heap

theorem slotsLeft_eq {n : ℕ} (hn : n ≤ slotNumbers) : slotsLeft n = slotNumbers - n := by
  simp only [slotsLeft, headerLimit, slotNumbers] at hn ⊢
  omega

end LanguageRuntime.Gc
