import LanguageRuntime.Gc.FieldTheorems

/-!
# Growing the storage of maps and builders

A map or a builder that needs more slots takes the free ones behind it or moves to the end of the
heap. Moving it is a relocation of one object that keeps the identifiers of all the others.
-/

namespace LanguageRuntime.Gc

open LanguageRuntime LanguageRuntime.Library

namespace Heap

/-! ## More slots -/

section Resize

variable {h : Heap} {size : ℕ} {id : ObjectId} {slot : ℕ} {o : Object}

theorem resize_self (hlengths : h.objects.length ≤ h.generations.length) :
    h.resize h.objects.length = h := by
  rw [resize, Nat.sub_self, Nat.sub_eq_zero_of_le hlengths]
  simp only [List.replicate_zero, List.append_nil]

@[simp] theorem lookup_resize (h : Heap) (size : ℕ) (id : ObjectId) :
    (h.resize size).lookup id = h.lookup id := by
  rw [lookup, lookup, generationAt_resize, objectAt_resize]

theorem resolve_resize_iff :
    (h.resize size).resolve id = .ok (slot, o) ↔ h.resolve id = .ok (slot, o) := by
  have hforwarded : (h.resize size).forwardedId = h.forwardedId := rfl
  simp only [resolve_eq_ok_iff, lookup_resize, hforwarded]

theorem namesYoung_resize : (h.resize size).NamesYoung id ↔ h.NamesYoung id := by
  simp only [NamesYoung, resolve_resize_iff]

theorem valid_resize {value : Value} : (h.resize size).Valid value ↔ h.Valid value := by
  simp only [Valid, Resolves, resolve_resize_iff]

theorem currentId_resize (h : Heap) (size slot : ℕ) :
    (h.resize size).currentId slot = h.currentId slot := by
  rw [currentId, currentId, generationAt_resize]

theorem Storage.resize (hst : h.Storage) (hsize : size ≤ slotNumbers) :
    (h.resize size).Storage := by
  have hlength := length_objects_resize h size
  have hbound := hst.size
  refine ⟨?_, ?_, ?_, ?_, ?_⟩
  · rw [hlength]
    omega
  · rw [hlength, length_generations_resize, hst.lengths]
  · intro slot o ho
    rw [objectAt_resize] at ho
    have hinside := hst.inside slot o ho
    rw [hlength]
    omega
  · intro slot slot' o o' hlt ho ho'
    rw [objectAt_resize] at ho ho'
    exact hst.disjoint slot slot' o o' hlt ho ho'
  · intro slot o ho
    rw [objectAt_resize] at ho
    rw [generationAt_resize]
    exact hst.named slot o ho

theorem renumbers_resize (h : Heap) (size : ℕ) : h.Renumbers (h.resize size) fun id => id where
  target id o ho := ⟨o, (lookup_resize h size id).trans ho, rfl⟩
  origin id' o' ho' := ⟨id', o', (lookup_resize h size id').symm.trans ho', rfl⟩
  ordered _ _ _ _ hlt := hlt
  resolves _ slot o hr := ⟨slot, o, resolve_resize_iff.mpr hr, rfl⟩

theorem Sound.resize (hs : h.Sound) (hsize : size ≤ slotNumbers) : (h.resize size).Sound := by
  refine hs.renumbers (renumbers_resize h size) (hs.storage.resize hsize)
    (fun value hvalue => valid_resize.mpr (hs.cells value hvalue))
    (fun root hroot => valid_resize.mpr (hs.handles root hroot)) ⟨hs.remembers.nodup, ?_, ?_⟩
    (List.map_id'' (fun _ => rfl) _).symm (List.map_id'' (fun _ => rfl) _).symm
    (List.map_id'' (fun _ => rfl) _).symm
  · intro id hid
    obtain ⟨o, ho, hold⟩ := hs.remembers.old id hid
    exact ⟨o, (lookup_resize h size id).trans ho, hold⟩
  · intro slot o ho hold id hid hyoung
    rw [objectAt_resize] at ho
    rw [currentId_resize]
    exact hs.remembers.complete slot o ho hold id hid (namesYoung_resize.mp hyoung)

/-- Outside incremental compaction the heap may have more slots. -/
theorem Wf.resize (hw : h.Wf) (hc : h.incrementalCompactionActive = false)
    (hsize : size ≤ slotNumbers) : (h.resize size).Wf := by
  refine ⟨hw.toSound.resize hsize, ?_⟩
  have hphase := hw.phase
  have hsame : (h.resize size).phase = h.phase := rfl
  unfold PhaseSound at hphase ⊢
  rw [hsame]
  cases hp : h.phase with
  | idle =>
    rw [hp] at hphase
    intro slot o ho
    rw [objectAt_resize] at ho
    exact hphase slot o ho
  | marking worklist =>
    rw [hp] at hphase
    refine ⟨fun id hid => ?_, fun slot o ho hlive id hid slot' o' hr => ?_⟩
    · obtain ⟨o, ho⟩ := hphase.grey id hid
      exact ⟨o, (lookup_resize h size id).trans ho⟩
    · rw [objectAt_resize] at ho
      exact hphase.traces slot o ho hlive id hid slot' o' (resolve_resize_iff.mp hr)
  | compacting c =>
    rw [incrementalCompactionActive, hp] at hc
    cases hc

end Resize

/-! ## Growing in place -/

section InPlace

variable {h : Heap} {slot : ℕ} {o : Object} {width : ℕ}

/-- A free run behind an object is room for it. -/
theorem Storage.fits_of_adjacentRunIsFree (hst : h.Storage) (ho : h.objectAt slot = some o)
    (hfree : h.adjacentRunIsFree slot o.width width = true) {h' : Heap}
    (hobjects : ∀ slot, h'.objectAt slot = h.objectAt slot)
    (hinside : slot + width ≤ h'.objects.length) : h'.Fits slot width where
  inside := hinside
  clear slot' o' hlt ho' := by
    rw [hobjects] at ho'
    have hend := hst.disjoint slot slot' o o' hlt ho ho'
    have hlength := lt_length_of_objectAt ho'
    by_contra hnot
    -- the base of the other object would be one of the free slots
    have hmem : slot' ∈ List.range' (slot + o.width)
        (min h.objects.length (slot + width) - (slot + o.width)) := by
      rw [List.mem_range'_1]
      omega
    have hslot := List.all_eq_true.mp hfree slot' hmem
    rw [isStorageSlotFree, ho'] at hslot
    simp at hslot

end InPlace

/-! ## Moving one object to the end -/

/-- The identifiers after the growth relocation of the object at `oldSlot`. -/
def growthIds (h : Heap) (oldSlot : ℕ) (newId : ObjectId) (slot : ℕ) : Option ObjectId :=
  (h.objectAt slot).map fun _ => if slot = oldSlot then newId else h.currentId slot

theorem getD_growthForwarding (h : Heap) (oldSlot : ℕ) (newId : ObjectId) (slot : ℕ) :
    (h.growthForwarding oldSlot newId).getD slot none = h.growthIds oldSlot newId slot := by
  rw [growthForwarding, growthIds, List.getD_eq_getElem?_getD, List.getElem?_map]
  by_cases hslot : slot < h.objects.length
  · rw [List.getElem?_range hslot, Option.map_some, Option.getD_some]
    cases h.objectAt slot with
    | none => rfl
    | some o =>
      simp only [Option.isNone_some, Bool.false_eq_true, if_false, Option.map_some]
      split <;> rfl
  · rw [List.getElem?_eq_none (by simpa using hslot), objectAt_eq_none (Nat.not_lt.mp hslot)]
    rfl

/-- The slot vector with the object at `oldSlot` moved behind its end. -/
def grownObjects (h : Heap) (oldSlot width : ℕ) (o : Object) : List (Option Object) :=
  (((h.resize (h.objects.length + width)).objects.set oldSlot none).set h.objects.length (some o))

/-- The heap after the growth relocation of the object `o` at `oldSlot`. -/
def grown (h : Heap) (oldSlot width : ℕ) (o : Object) (rememberedSet : List ObjectId)
    (phase : Phase) : Heap :=
  let newId : ObjectId := ⟨h.objects.length, kFirstGeneration⟩
  let F := h.forwardBy (h.growthIds oldSlot newId)
  { h.mapRoots (h.forwardRoot (h.growthIds oldSlot newId)) with
    objects := (h.grownObjects oldSlot width o).map (Option.map (Object.forward F))
    generations :=
      (h.resize (h.objects.length + width)).generations.set h.objects.length kFirstGeneration
    rememberedSet := rememberedSet
    weakRefs := h.weakRefs.filterMap F
    internTable := h.forwardInternTable (h.growthIds oldSlot newId)
    ephemerons := h.ephemerons.filterMap F
    phase := phase
    issued := (newId, o.serial) :: h.issued }

section Grown

variable {h : Heap} {oldSlot width slot : ℕ} {o o' : Object} {id id' newId : ObjectId}
  {rememberedSet : List ObjectId} {phase : Phase}

theorem growthIds_old (ho : h.objectAt oldSlot = some o) :
    h.growthIds oldSlot newId oldSlot = some newId := by
  rw [growthIds, ho, Option.map_some, if_pos rfl]

theorem growthIds_of_ne (hne : slot ≠ oldSlot) (ho : h.objectAt slot = some o) :
    h.growthIds oldSlot newId slot = some (h.currentId slot) := by
  rw [growthIds, ho, Option.map_some, if_neg hne]

/-- Every object is kept. -/
theorem isSome_growthIds (hr : h.Resolves id) :
    (h.forwardBy (h.growthIds oldSlot newId) id).isSome = true := by
  obtain ⟨slot, o, hr⟩ := hr
  rw [forwardBy_of_resolve hr, growthIds, objectAt_of_resolve hr]
  rfl

theorem getD_grownObjects (hold : oldSlot < h.objects.length) (hwidth : 0 < width) (slot : ℕ) :
    (h.grownObjects oldSlot width o).getD slot none =
      if slot = h.objects.length then some o
      else if slot = oldSlot then none else h.objectAt slot := by
  have hlength : (h.resize (h.objects.length + width)).objects.length =
      h.objects.length + width := by
    rw [length_objects_resize]
    omega
  have hat : (h.resize (h.objects.length + width)).objects.getD slot none = h.objectAt slot :=
    objectAt_resize _ _ _
  rw [grownObjects, getD_set, getD_set, List.length_set, hlength, hat]
  by_cases hend : slot = h.objects.length
  · rw [if_pos ⟨hend.symm, by omega⟩, if_pos hend]
  · rw [if_neg fun hand => hend hand.1.symm, if_neg hend]
    by_cases hslot : slot = oldSlot
    · rw [if_pos ⟨hslot.symm, by omega⟩, if_pos hslot]
    · rw [if_neg fun hand => hslot hand.1.symm, if_neg hslot]

theorem objectAt_grown (hold : oldSlot < h.objects.length) (hwidth : 0 < width) (slot : ℕ) :
    (h.grown oldSlot width o rememberedSet phase).objectAt slot =
      (if slot = h.objects.length then some o
        else if slot = oldSlot then none else h.objectAt slot).map
          (Object.forward (h.forwardBy
            (h.growthIds oldSlot ⟨h.objects.length, kFirstGeneration⟩))) := by
  rw [← getD_grownObjects hold hwidth]
  exact getD_map_option _ _ _

theorem length_grown : (h.grown oldSlot width o rememberedSet phase).objects.length =
    h.objects.length + width := by
  show ((h.grownObjects oldSlot width o).map _).length = _
  rw [List.length_map, grownObjects, List.length_set, List.length_set, length_objects_resize]
  omega

theorem generationAt_grown (hst : h.Storage) (hwidth : 0 < width) (slot : ℕ) :
    (h.grown oldSlot width o rememberedSet phase).generationAt slot =
      if slot = h.objects.length then kFirstGeneration else h.generationAt slot := by
  have hlength : (h.resize (h.objects.length + width)).generations.length =
      h.objects.length + width := by
    rw [length_generations_resize, hst.lengths]
    omega
  have hat : (h.resize (h.objects.length + width)).generations.getD slot 0 =
      h.generationAt slot := generationAt_resize _ _ _
  show (List.set _ _ _).getD slot 0 = _
  rw [getD_set, hlength, hat]
  by_cases hend : slot = h.objects.length
  · rw [if_pos ⟨hend.symm, by omega⟩, if_pos hend]
  · rw [if_neg fun hand => hend hand.1.symm, if_neg hend]

/-- What the relocation of `o` at `oldSlot` needs. -/
structure Grows (h : Heap) (oldSlot width : ℕ) (o : Object) : Prop where
  sound : h.Sound
  settled : h.incrementalCompactionActive = false
  object : h.objectAt oldSlot = some o
  unlisted : o.payload.kind.isListed = false
  widens : o.width ≤ width
  room : h.objects.length + width ≤ slotNumbers

/-- The objects of the grown heap are the old ones. -/
theorem Grows.origin (hg : h.Grows oldSlot width o)
    (ho' : (h.grown oldSlot width o rememberedSet phase).objectAt slot = some o') :
    ∃ slot₁ o₁ id', h.objectAt slot₁ = some o₁ ∧
      h.growthIds oldSlot ⟨h.objects.length, kFirstGeneration⟩ slot₁ = some id' ∧ id'.slot = slot ∧
      o' = o₁.forward (h.forwardBy (h.growthIds oldSlot ⟨h.objects.length, kFirstGeneration⟩)) ∧
      (slot₁ = oldSlot ∧ slot = h.objects.length ∨
        slot₁ ≠ oldSlot ∧ slot = slot₁ ∧ slot₁ < h.objects.length) := by
  have hold := lt_length_of_objectAt hg.object
  have hwidth : 0 < width := o.width_pos.trans_le hg.widens
  rw [objectAt_grown hold hwidth, Option.map_eq_some_iff] at ho'
  obtain ⟨o₁, ho₁, rfl⟩ := ho'
  split at ho₁
  · next hend =>
    cases ho₁
    exact ⟨oldSlot, o, _, hg.object, growthIds_old hg.object, hend.symm, rfl, .inl ⟨rfl, hend⟩⟩
  · split at ho₁
    · exact nomatch ho₁
    · next hne =>
      refine ⟨slot, o₁, _, ho₁, growthIds_of_ne hne ho₁, ?_, rfl,
        .inr ⟨hne, rfl, lt_length_of_objectAt ho₁⟩⟩
      rw [hg.sound.storage.currentId_eq ho₁]

theorem Grows.target (hg : h.Grows oldSlot width o) (ho' : h.objectAt slot = some o')
    (hid' : h.growthIds oldSlot ⟨h.objects.length, kFirstGeneration⟩ slot = some id') :
    (h.grown oldSlot width o rememberedSet phase).lookup id' = some (o'.forward
      (h.forwardBy (h.growthIds oldSlot ⟨h.objects.length, kFirstGeneration⟩))) := by
  have hst := hg.sound.storage
  have hold := lt_length_of_objectAt hg.object
  have hwidth : 0 < width := o.width_pos.trans_le hg.widens
  by_cases hslot : slot = oldSlot
  · subst hslot
    rw [hg.object] at ho'
    cases ho'
    rw [growthIds_old hg.object] at hid'
    cases hid'
    refine lookup_eq_some.mpr ⟨Nat.one_ne_zero, ?_, ?_⟩
    · rw [generationAt_grown hst hwidth, if_pos rfl]
    · rw [objectAt_grown hold hwidth, if_pos rfl]
      rfl
  · rw [growthIds_of_ne hslot ho', hst.currentId_eq ho'] at hid'
    cases hid'
    have hne : slot ≠ h.objects.length := (lt_length_of_objectAt ho').ne
    refine lookup_eq_some.mpr ⟨hst.named slot o' ho', ?_, ?_⟩
    · rw [generationAt_grown hst hwidth, if_neg hne]
    · rw [objectAt_grown hold hwidth, if_neg hne, if_neg hslot, ho']
      rfl

theorem Grows.storage (hg : h.Grows oldSlot width o) :
    (h.grown oldSlot width o rememberedSet phase).Storage := by
  have hst := hg.sound.storage
  have hwidth : 0 < width := o.width_pos.trans_le hg.widens
  have hlength : (h.grown oldSlot width o rememberedSet phase).objects.length =
      h.objects.length + width := length_grown
  refine ⟨hlength ▸ hg.room, ?_, ?_, ?_, ?_⟩
  · rw [hlength]
    show (List.set _ _ _).length = _
    rw [List.length_set, length_generations_resize, hst.lengths]
    omega
  · intro slot o' ho'
    obtain ⟨slot₁, o₁, id', ho₁, -, -, rfl, ⟨rfl, rfl⟩ | ⟨-, rfl, -⟩⟩ := hg.origin ho'
    · rw [hg.object] at ho₁
      cases ho₁
      rw [Object.width_forward, hlength]
      exact Nat.add_le_add_left hg.widens _
    · have hinside := hst.inside slot o₁ ho₁
      rw [Object.width_forward, hlength]
      omega
  · intro slot slot' o₁' o₂' hlt ho₁' ho₂'
    obtain ⟨slot₁, o₁, -, ho₁, -, -, rfl, ⟨rfl, rfl⟩ | ⟨-, rfl, hlt₁⟩⟩ := hg.origin ho₁' <;>
      obtain ⟨slot₂, o₂, -, ho₂, -, -, rfl, ⟨rfl, rfl⟩ | ⟨-, rfl, hlt₂⟩⟩ := hg.origin ho₂'
    · exact absurd hlt (Nat.lt_irrefl _)
    · omega
    · rw [Object.width_forward]
      exact hst.inside slot o₁ ho₁
    · rw [Object.width_forward]
      exact hst.disjoint slot slot' o₁ o₂ hlt ho₁ ho₂
  · intro slot o' ho'
    rw [generationAt_grown hst hwidth]
    split
    · exact nofun
    · next hne =>
      obtain ⟨slot₁, o₁, -, ho₁, -, -, -, ⟨-, rfl⟩ | ⟨-, rfl, -⟩⟩ := hg.origin ho'
      · exact absurd rfl hne
      · exact hst.named slot o₁ ho₁

/-- No object lies where the moved one has its new storage. -/
theorem Grows.fits (hg : h.Grows oldSlot width o) :
    (h.grown oldSlot width o rememberedSet phase).Fits h.objects.length width where
  inside := length_grown.ge
  clear slot' o' hlt ho' := by
    obtain ⟨slot₁, o₁, id₁, -, -, -, -, ⟨-, rfl⟩ | ⟨-, rfl, hinside⟩⟩ := hg.origin ho'
    · exact absurd hlt (Nat.lt_irrefl _)
    · exact absurd (hlt.trans hinside) (Nat.lt_irrefl _)

/-! ### The relocation -/

theorem forwardId?_growthForwarding (h : Heap) (oldSlot : ℕ) (newId : ObjectId) :
    h.forwardId? (h.growthForwarding oldSlot newId) = h.forwardBy (h.growthIds oldSlot newId) := by
  rw [forwardId?_eq]
  congr 1
  funext slot
  exact getD_growthForwarding h oldSlot newId slot

theorem Sound.forwards_growthIds (hs : h.Sound) (ho : h.objectAt slot = some o) :
    o.payload.Forwards (h.forwardBy (h.growthIds oldSlot newId)) := by
  refine ⟨fun id hid => ?_, fun key value hp _ => ?_⟩
  · exact isSome_growthIds (valid_object.mp
      (hs.fields slot o ho _ (List.mem_append_left _ hid)))
  · exact isSome_growthIds (valid_object.mp (hs.fields slot o ho (.object value)
      (by simp [hp, Payload.allFields, Payload.weakFields])))

theorem Grows.ordersListed (hg : h.Grows oldSlot width o) :
    h.OrdersListed (h.growthIds oldSlot newId) := by
  intro slot₁ slot₂ o₁ o₂ id₁ id₂ ho₁ ho₂ hid₁ hid₂ hlisted₁ hlisted₂ hlt
  have hne : ∀ slot o', h.objectAt slot = some o' → o'.payload.kind.isListed = true →
      slot ≠ oldSlot := by
    rintro slot o' ho' hlisted rfl
    rw [hg.object] at ho'
    cases ho'
    rw [hg.unlisted] at hlisted
    exact nomatch hlisted
  rw [growthIds_of_ne (hne slot₁ o₁ ho₁ hlisted₁) ho₁, hg.sound.storage.currentId_eq ho₁] at hid₁
  rw [growthIds_of_ne (hne slot₂ o₂ ho₂ hlisted₂) ho₂, hg.sound.storage.currentId_eq ho₂] at hid₂
  cases hid₁
  cases hid₂
  exact hlt

theorem Grows.moves (hg : h.Grows oldSlot width o) :
    h.Moves (h.growthForwarding oldSlot ⟨h.objects.length, kFirstGeneration⟩)
      (h.grownObjects oldSlot width o) := by
  have hold := lt_length_of_objectAt hg.object
  have hwidth : 0 < width := o.width_pos.trans_le hg.widens
  have hids : (fun slot => (h.growthForwarding oldSlot
      ⟨h.objects.length, kFirstGeneration⟩).getD slot none) =
        h.growthIds oldSlot ⟨h.objects.length, kFirstGeneration⟩ :=
    funext fun slot => getD_growthForwarding _ _ _ slot
  refine ⟨?_, ?_, ?_, ?_⟩
  · intro slot o' id' ho' hid'
    rw [getD_growthForwarding] at hid'
    by_cases hslot : slot = oldSlot
    · subst hslot
      rw [hg.object] at ho'
      cases ho'
      rw [growthIds_old hg.object] at hid'
      cases hid'
      exact ⟨o, by rw [getD_grownObjects hold hwidth, if_pos rfl], rfl⟩
    · rw [growthIds_of_ne hslot ho', hg.sound.storage.currentId_eq ho'] at hid'
      cases hid'
      refine ⟨o', ?_, rfl⟩
      rw [getD_grownObjects hold hwidth, if_neg (lt_length_of_objectAt ho').ne, if_neg hslot, ho']
  · intro slot' o' ho'
    rw [getD_grownObjects hold hwidth] at ho'
    split at ho'
    · next hend =>
      cases ho'
      exact ⟨oldSlot, o, _, hg.object, (getD_growthForwarding _ _ _ _).trans
        (growthIds_old hg.object), hend.symm, rfl⟩
    · split at ho'
      · exact nomatch ho'
      · next hne =>
        refine ⟨slot', o', _, ho', (getD_growthForwarding _ _ _ _).trans
          (growthIds_of_ne hne ho'), ?_, rfl⟩
        rw [hg.sound.storage.currentId_eq ho']
  · rw [hids]
    exact hg.ordersListed
  · intro slot o' ho' _
    rw [forwardId?_growthForwarding]
    exact hg.sound.forwards_growthIds ho'

theorem Grows.relocates (hg : h.Grows oldSlot width o) :
    h.Relocates (h.grown oldSlot width o rememberedSet phase)
      (h.growthIds oldSlot ⟨h.objects.length, kFirstGeneration⟩) where
  target slot o' id' ho' hid' := ⟨_, hg.target ho' hid', rfl⟩
  origin slot' o' ho' := by
    obtain ⟨slot, o₁, id', ho₁, hid', hslot, -⟩ := hg.origin ho'
    exact ⟨slot, o₁, id', ho₁, hid', hslot⟩
  ordered := hg.ordersListed
  closed _ _ ho' _ := hg.sound.forwards_growthIds ho'

/-- A reference of the grown heap comes from a reference of the old one. -/
theorem Grows.reference (hg : h.Grows oldSlot width o) (ho' : h.objectAt slot = some o')
    (hid' : .object id' ∈ (o'.forward (h.forwardBy (h.growthIds oldSlot newId))).payload.referenceFields) :
    ∃ id slot' o₁, .object id ∈ o'.payload.referenceFields ∧ h.resolve id = .ok (slot', o₁) ∧
      h.growthIds oldSlot newId slot' = some id' := by
  rw [Object.payload_forward, Payload.referenceFields_forward, List.mem_map] at hid'
  obtain ⟨value, hvalue, heq⟩ := hid'
  cases value with
  | object id =>
    obtain ⟨slot', o₁, hr⟩ := valid_object.mp
      (hg.sound.fields slot o' ho' _ (List.mem_append_left _ hvalue))
    have hsome : (h.forwardBy (h.growthIds oldSlot newId) id).isSome = true :=
      isSome_growthIds ⟨slot', o₁, hr⟩
    obtain ⟨id₁, hid₁⟩ := Option.isSome_iff_exists.mp hsome
    rw [Value.mapObject_object, hid₁] at heq
    cases heq
    rw [forwardBy_of_resolve hr] at hid₁
    exact ⟨id, slot', o₁, hvalue, hr, hid₁⟩
  | _ => exact nomatch heq

theorem Grows.remembers (hg : h.Grows oldSlot width o) (hnodup : rememberedSet.Nodup)
    (hmem : ∀ id', id' ∈ rememberedSet ↔ ∃ id ∈ h.rememberedSet,
      h.forwardBy (h.growthIds oldSlot ⟨h.objects.length, kFirstGeneration⟩) id = some id') :
    (h.grown oldSlot width o rememberedSet phase).Remembers where
  nodup := hnodup
  old id' hid' := by
    obtain ⟨id, hid, hF⟩ := (hmem id').mp hid'
    obtain ⟨o₁, ho₁, hold⟩ := hg.sound.remembers.old id hid
    rw [forwardBy_of_resolve (resolve_of_lookup ho₁)] at hF
    exact ⟨_, hg.target (objectAt_of_lookup ho₁) hF, hold⟩
  complete slot o' ho' hold id' hid' hyoung := by
    obtain ⟨slot₁, o₁, id₁, ho₁, hid₁, rfl, rfl, -⟩ := hg.origin ho'
    obtain ⟨id, slot₂, o₂, hid, hr, hid₂⟩ := hg.reference ho₁ hid'
    have htarget : (h.grown oldSlot width o rememberedSet phase).lookup id' = some _ :=
      hg.target (objectAt_of_resolve hr) hid₂
    have hyoung₂ : h.NamesYoung id :=
      ⟨slot₂, o₂, hr, (namesYoung_of_resolve (resolve_of_lookup htarget)).mp hyoung⟩
    have hin := hg.sound.remembers.complete slot₁ o₁ ho₁ hold id hid hyoung₂
    have howner : (h.grown oldSlot width o rememberedSet phase).lookup id₁ = some _ :=
      hg.target ho₁ hid₁
    rw [hg.storage.currentId_of_lookup howner]
    refine (hmem id₁).mpr ⟨_, hin, ?_⟩
    rw [forwardBy_of_resolve (hg.sound.storage.resolve_currentId ho₁), hid₁]

/-- The grey worklist after the relocation. -/
def grownPhase (h : Heap) (oldSlot : ℕ) (newId : ObjectId) : Phase :=
  match h.phase with
  | .marking worklist =>
    .marking (worklist.map fun id => (h.forwardBy (h.growthIds oldSlot newId) id).getD id)
  | phase => phase

theorem incrementalCompactionActive_eq_false :
    h.incrementalCompactionActive = false ↔ ∀ c, h.phase ≠ .compacting c := by
  unfold incrementalCompactionActive
  constructor
  · intro hc c hphase
    rw [hphase] at hc
    cases hc
  · intro hno
    cases hphase : h.phase with
    | compacting c => exact absurd hphase (hno c)
    | _ => rfl

theorem grownPhase_settled (hc : h.incrementalCompactionActive = false) :
    (h.grown oldSlot width o rememberedSet (h.grownPhase oldSlot newId)).incrementalCompactionActive
      = false := by
  refine incrementalCompactionActive_eq_false.mpr fun c (hphase : h.grownPhase oldSlot newId = _) => ?_
  unfold grownPhase at hphase
  cases hp : h.phase with
  | compacting c => exact incrementalCompactionActive_eq_false.mp hc c hp
  | _ =>
    rw [hp] at hphase
    cases hphase

theorem Grows.valid (hg : h.Grows oldSlot width o) {value : Value} (hv : h.Valid value) :
    (h.grown oldSlot width o rememberedSet phase).Valid
      (h.forwardRoot (h.growthIds oldSlot ⟨h.objects.length, kFirstGeneration⟩) value) :=
  hg.relocates.valid fun id heq => isSome_growthIds (hv id heq)

theorem Grows.sound_grown (hg : h.Grows oldSlot width o) (hnodup : rememberedSet.Nodup)
    (hmem : ∀ id', id' ∈ rememberedSet ↔ ∃ id ∈ h.rememberedSet,
      h.forwardBy (h.growthIds oldSlot ⟨h.objects.length, kFirstGeneration⟩) id = some id') :
    (h.grown oldSlot width o rememberedSet phase).Sound := by
  refine hg.sound.relocates hg.relocates hg.storage ?_ ?_ (hg.remembers hnodup hmem) rfl rfl rfl
  · intro value hvalue
    obtain ⟨root, hroot, rfl⟩ := List.mem_map.mp hvalue
    exact hg.valid (hg.sound.cells root hroot)
  · intro root' hroot'
    obtain ⟨root, hroot, rfl⟩ := List.mem_map.mp hroot'
    exact hg.valid (hg.sound.handles root hroot)

/-- The relocation keeps the marks, so it keeps the tri-colour invariant of the forwarded
worklist. -/
theorem Grows.triColour (hg : h.Grows oldSlot width o) {worklist : List ObjectId}
    (ht : h.TriColour worklist) :
    (h.grown oldSlot width o rememberedSet phase).TriColour (worklist.map fun id =>
      (h.forwardBy (h.growthIds oldSlot ⟨h.objects.length, kFirstGeneration⟩) id).getD id) where
  grey id' hid' := by
    obtain ⟨id, hid, rfl⟩ := List.mem_map.mp hid'
    have hsome : (h.forwardBy (h.growthIds oldSlot ⟨h.objects.length, kFirstGeneration⟩)
        id).isSome = true := isSome_growthIds (ht.grey id hid).resolves
    obtain ⟨id₁, hid₁⟩ := Option.isSome_iff_exists.mp hsome
    rw [hid₁, Option.getD_some]
    exact hg.relocates.current hid₁
  traces slot o' ho' hlive id' hid' slot' o₂' hr' := by
    obtain ⟨slot₁, o₁, -, ho₁, -, -, rfl, -⟩ := hg.origin ho'
    obtain ⟨id, slot₂, o₂, hid, hr, hid₂⟩ := hg.reference ho₁ hid'
    have htarget : (h.grown oldSlot width o rememberedSet phase).lookup id' = some _ :=
      hg.target (objectAt_of_resolve hr) hid₂
    rw [resolve_of_lookup htarget] at hr'
    cases hr'
    rcases ht.traces slot₁ o₁ ho₁ hlive id hid slot₂ o₂ hr with hmarked | hgrey
    · exact .inl hmarked
    · refine .inr (List.mem_map.mpr ⟨id, hgrey, ?_⟩)
      rw [forwardBy_of_resolve hr, hid₂, Option.getD_some]

theorem Grows.phaseSound (hg : h.Grows oldSlot width o) (hp : h.PhaseSound) :
    (h.grown oldSlot width o rememberedSet
      (h.grownPhase oldSlot ⟨h.objects.length, kFirstGeneration⟩)).PhaseSound := by
  unfold PhaseSound at hp
  cases hphase : h.phase with
  | idle =>
    rw [hphase] at hp
    have hidle : h.grownPhase oldSlot ⟨h.objects.length, kFirstGeneration⟩ = .idle := by
      rw [grownPhase, hphase]
    rw [hidle]
    intro slot o' ho'
    obtain ⟨slot₁, o₁, -, ho₁, -, -, rfl, -⟩ := hg.origin ho'
    exact hp slot₁ o₁ ho₁
  | compacting c =>
    have hc := hg.settled
    rw [incrementalCompactionActive, hphase] at hc
    cases hc
  | marking worklist =>
    rw [hphase] at hp
    have hmarking : h.grownPhase oldSlot ⟨h.objects.length, kFirstGeneration⟩ =
        .marking (worklist.map fun id =>
          (h.forwardBy (h.growthIds oldSlot ⟨h.objects.length, kFirstGeneration⟩) id).getD id) := by
      rw [grownPhase, hphase]
    rw [hmarking]
    exact hg.triColour hp

/-- Every grey object has a forwarding entry. -/
theorem PhaseSound.forwardWorklist_eq_ok (hp : h.PhaseSound) (oldSlot : ℕ) (newId : ObjectId)
    (message : String) : h.forwardWorklist (h.growthForwarding oldSlot newId) message =
      .ok (h.grownPhase oldSlot newId) := by
  unfold forwardWorklist grownPhase
  unfold PhaseSound at hp
  cases hphase : h.phase with
  | marking worklist =>
    rw [hphase] at hp
    refine bind_eq_ok.mpr ⟨_, mapM_eq_ok_map (g := fun id =>
      (h.forwardBy (h.growthIds oldSlot newId) id).getD id) fun id hid => ?_, rfl⟩
    have hresolves := (hp.grey id hid).resolves
    have hsome : (h.forwardBy (h.growthIds oldSlot newId) id).isSome = true :=
      isSome_growthIds hresolves
    obtain ⟨id₁, hid₁⟩ := Option.isSome_iff_exists.mp hsome
    rw [forwardId_of_resolves hresolves, forwardId?_growthForwarding, hid₁, ok_bind]
    rfl
  | _ => rfl

end Grown

/-! ## Room for more -/

/-- `h'` is `h` after a growth: the object that the first of the caller's cells names, `o` before
the growth, has room for `width` slots. -/
structure Roomy (h' : Heap) (o : Object) (width : ℕ) (cells cells' : List Value) : Prop where
  wf : h'.Wf
  settled : h'.incrementalCompactionActive = false
  valid : ∀ value ∈ cells', h'.Valid value
  arity : cells'.length = cells.length
  owner : ∃ id slot o' F, cells'.getD 0 .nil = .object id ∧ h'.resolve id = .ok (slot, o') ∧
    o'.payload = o.payload.forward F ∧ h'.Fits slot width

section Growth

variable {h : Heap} {slot width : ℕ} {o : Object} {id : ObjectId} {rest : List Value}
  {limitMessage worklistMessage : String}

/-- `h'` is `h` with the object `o` of `oldSlot` moved to the end, and the caller's cells follow. -/
structure Regrown (h h' : Heap) (oldSlot width : ℕ) (o : Object) (cells cells' : List Value) :
    Prop where
  grows : h.Grows oldSlot width o
  heap : ∃ rewritten : List ObjectId, rewritten.Nodup ∧
    (∀ id', id' ∈ rewritten ↔ ∃ id ∈ h.rememberedSet,
      h.forwardBy (h.growthIds oldSlot ⟨h.objects.length, kFirstGeneration⟩) id = some id') ∧
    h' = h.grown oldSlot width o rewritten
      (h.grownPhase oldSlot ⟨h.objects.length, kFirstGeneration⟩)
  cells_eq : cells' = cells.map
    (h.forwardRoot (h.growthIds oldSlot ⟨h.objects.length, kFirstGeneration⟩))

/-- What has been moved to the end has room there. -/
theorem Regrown.roomy {h' : Heap} {cells' : List Value}
    (hg : h.Regrown h' slot width o (.object id :: rest) cells') (hw : h.Wf)
    (hr : h.resolve id = .ok (slot, o)) (hrest : ∀ value ∈ rest, h.Valid value) :
    h'.Roomy o width (.object id :: rest) cells' := by
  obtain ⟨hgrows, ⟨rewritten, hnodup, hmem, rfl⟩, rfl⟩ := hg
  have hsound : (h.grown slot width o rewritten
      (h.grownPhase slot ⟨h.objects.length, kFirstGeneration⟩)).Sound :=
    hgrows.sound_grown hnodup hmem
  have hvalid : ∀ value ∈ Value.object id :: rest, h.Valid value := by
    intro value hvalue
    rcases List.mem_cons.mp hvalue with rfl | hmem
    · exact valid_object.mpr ⟨slot, o, hr⟩
    · exact hrest value hmem
  have htarget : (h.grown slot width o rewritten
      (h.grownPhase slot ⟨h.objects.length, kFirstGeneration⟩)).lookup
        ⟨h.objects.length, kFirstGeneration⟩ = some _ :=
    hgrows.target hgrows.object (growthIds_old hgrows.object)
  refine ⟨⟨hsound, hgrows.phaseSound hw.phase⟩, grownPhase_settled hgrows.settled,
    fun value' hvalue' => ?_, List.length_map _, ?_⟩
  · obtain ⟨value, hvalue, rfl⟩ := List.mem_map.mp hvalue'
    exact hgrows.valid (hvalid value hvalue)
  · refine ⟨_, _, _, _, ?_, resolve_of_lookup htarget, rfl, hgrows.fits⟩
    show h.forwardRoot _ (.object id) = _
    rw [forwardRoot, Value.mapObject_object, forwardBy_of_resolve hr,
      growthIds_old hgrows.object, Option.getD_some]

/-- The growth relocation moves the object to the end of the heap, or throws before it has changed
anything. -/
theorem wp_relocateForGrowth (hw : h.Wf) (hc : h.incrementalCompactionActive = false)
    (hr : h.resolve id = .ok (slot, o)) (hlisted : o.payload.kind.isListed = false)
    (hwidth : o.width ≤ width) (hrest : ∀ value ∈ rest, h.Valid value) :
    wp (relocateForGrowth id width (.object id :: rest) limitMessage worklistMessage)
      (fun cells' h' => h.Regrown h' slot width o (.object id :: rest) cells') (fun _ h' => h' = h)
      h := by
  have hs := hw.toSound
  unfold relocateForGrowth
  refine wp_query_ok hr ?_
  rw [wp_bind, wp_get]
  refine wp_ite (fun _ => rfl) fun hlimit => ?_
  have hsize : h.objects.length < slotNumbers := by
    simp only [headerLimit, slotNumbers] at hlimit ⊢
    omega
  have hleft := slotsLeft_eq hsize.le
  have hg : h.Grows slot width o := ⟨hs, hc, objectAt_of_resolve hr, hlisted, hwidth, by omega⟩
  have hgeneration : generationForNewBase 0 = .ok kFirstGeneration := rfl
  refine wp_query_ok hgeneration ?_
  rw [makeObjectId_of_lt _ hsize]
  dsimp only
  generalize hnew : (⟨h.objects.length, kFirstGeneration⟩ : ObjectId) = newId
  have hmoves := hg.moves
  rw [hnew] at hmoves
  obtain ⟨hrewritten, moved', hweak, hephemerons⟩ := hmoves.passes hs
  have hF := forwardId?_growthForwarding h slot newId
  have hvalid : ∀ value ∈ h.traceCollectionRoots (.object id :: rest), h.Valid value :=
    hs.traceCollectionRoots fun value hvalue => by
      rcases List.mem_cons.mp hvalue with rfl | hmem
      · exact valid_object.mpr ⟨slot, o, hr⟩
      · exact hrest value hmem
  have hroots : ∀ value ∈ h.traceCollectionRoots (.object id :: rest),
      h.rewriteValue (h.growthForwarding slot newId) value =
        .ok (value.mapObject (h.forwardIdD (h.growthForwarding slot newId))) := by
    intro value hvalue
    refine rewriteValue_eq_ok fun id heq => ?_
    rw [hF]
    exact isSome_growthIds (hvalid value hvalue id heq)
  have hold : ∀ id ∈ h.rememberedSet, h.Resolves id := by
    intro id hid
    obtain ⟨o, ho, -⟩ := hs.remembers.old id hid
    exact ⟨id.slot, o, resolve_of_lookup ho⟩
  obtain ⟨rewritten, hremembered, hnodup, hmem⟩ :=
    rewriteRememberedSet_ok (h := h) (h.growthForwarding slot newId) hold
  have htable : h.processInternTable (h.growthForwarding slot newId) false =
      .ok (h.forwardInternTable (h.growthIds slot newId)) := by
    have horders : h.OrdersListed (h.growthIds slot newId) := hg.ordersListed
    have hordered := horders.pairwise_forwardInternTable hs.interns
    rw [forwardInternTable, ← hF] at hordered ⊢
    refine processInternTable_eq_ok hordered (fun entry hentry => ?_) fun _ entry hentry => ?_
    · obtain ⟨o, ho, -⟩ := hs.interns.listed hentry
      exact ⟨_, o, resolve_of_lookup ho⟩
    · obtain ⟨o, ho, -⟩ := hs.interns.listed hentry
      rw [hF]
      exact isSome_growthIds ⟨_, o, resolve_of_lookup ho⟩
  have hphase := hw.phase.forwardWorklist_eq_ok slot newId worklistMessage
  -- the queries after the roots do not look at the roots
  refine wp_query_ok hremembered ?_
  unfold rewriteReferences
  rw [wp_bind, wp_bind, wp_get, wp_bind, wp_eq_ok (rewriteRoots_eq_ok hroots), wp_bind, wp_query]
  show Yields ((h.grownObjects slot width o).mapM (h.rewriteObject _)) _ _
  rw [hrewritten, yields_ok, wp_pure]
  refine wp_query_ok (a := (moved', h.weakRefs.filterMap (h.forwardId? _))) hweak ?_
  refine wp_query_ok (a := h.forwardInternTable _) htable ?_
  refine wp_query_ok hephemerons ?_
  refine wp_query_ok (a := h.grownPhase slot newId) hphase ?_
  rw [wp_bind, wp_modify]
  have hids : (fun slot' => (h.growthForwarding slot newId).getD slot' none) =
      h.growthIds slot newId := funext fun slot' => getD_growthForwarding _ _ _ slot'
  rw [hF] at hmem ⊢
  rw [mapObject_forwardIdD, hids]
  subst hnew
  show wp _ _ _ (h.grown slot width o rewritten (h.grownPhase slot _))
  have hsound : (h.grown slot width o rewritten
      (h.grownPhase slot ⟨h.objects.length, kFirstGeneration⟩)).Sound :=
    hg.sound_grown hnodup hmem
  refine wp_query_ok hsound.validateBeforeCollection_eq_ok ?_
  rw [wp_pure]
  exact ⟨hg, ⟨rewritten, hnodup, hmem, rfl⟩, rfl⟩

/-- A heap outside incremental compaction whose slot vector has outgrown the slot numbers. -/
structure Oversized (h : Heap) : Prop where
  slots : slotNumbers < h.objects.length
  settled : h.incrementalCompactionActive = false

/-- `h'` is `h` with room behind the object of `slot`, which stays where it is. -/
structure Widened (h h' : Heap) (slot width : ℕ) : Prop where
  heap : ∃ size, h' = h.resize size ∧ size ≤ max h.objects.length (slot + width)
  fits : h'.Fits slot width

/-- `h'` is `h` after a growth of the object `o` of `slot`, in place or by a relocation. -/
inductive Grew (h h' : Heap) (slot width : ℕ) (o : Object) (cells : List Value) :
    List Value → Prop where
  | inPlace : h.Widened h' slot width → Grew h h' slot width o cells cells
  | relocated {cells' : List Value} : h.Regrown h' slot width o cells cells' →
    Grew h h' slot width o cells cells'

/-- The object at the first of the caller's cells has room for `width` slots, or the slot vector
has outgrown the slot numbers. -/
theorem Grew.roomy {h' : Heap} {cells' : List Value}
    (hg : h.Grew h' slot width o (.object id :: rest) cells') (hw : h.Wf)
    (hc : h.incrementalCompactionActive = false) (hr : h.resolve id = .ok (slot, o))
    (hrest : ∀ value ∈ rest, h.Valid value) :
    h'.Roomy o width (.object id :: rest) cells' ∨ h'.Oversized := by
  cases hg with
  | relocated hg => exact .inl (hg.roomy hw hr hrest)
  | inPlace hg =>
    obtain ⟨⟨size, rfl, hbound⟩, hfits⟩ := hg
    have hlength := length_objects_resize h size
    have hvalid : ∀ value ∈ Value.object id :: rest, h.Valid value := by
      intro value hvalue
      rcases List.mem_cons.mp hvalue with rfl | hmem
      · exact valid_object.mpr ⟨slot, o, hr⟩
      · exact hrest value hmem
    by_cases hsize : size ≤ slotNumbers
    · exact .inl ⟨hw.resize hc hsize, hc,
        fun value hvalue => valid_resize.mpr (hvalid value hvalue), rfl, id, slot, o, some, rfl,
        resolve_resize_iff.mpr hr, (Payload.forward_some _).symm, hfits⟩
    · refine .inr ⟨?_, hc⟩
      rw [hlength]
      omega

/-- The growth makes room in place or relocates, or throws before it has changed anything. -/
theorem wp_ensureGrowthStorage (hst : h.Storage) (hr : h.resolve id = .ok (slot, o))
    {relocate : HeapM (List Value)}
    (hrelocate : wp relocate (fun cells' h' => h.Regrown h' slot width o (.object id :: rest) cells')
      (fun _ h' => h' = h) h) :
    wp (ensureGrowthStorage slot o.width width (.object id :: rest) relocate)
      (fun cells' h' => h.Grew h' slot width o (.object id :: rest) cells') (fun _ h' => h' = h)
      h := by
  have ho := objectAt_of_resolve hr
  unfold ensureGrowthStorage
  rw [wp_bind, wp_get]
  refine wp_ite (fun _ => ?_) fun hnot => ?_
  · exact wp_mono hrelocate (fun _ _ hmoved => .relocated hmoved) fun _ _ he => he
  · have hfree : h.adjacentRunIsFree slot o.width width = true := by simpa using hnot
    -- the object keeps its slot, only the vector may get longer
    have hwidened : ∀ size, slot + width ≤ max h.objects.length size →
        size ≤ max h.objects.length (slot + width) → h.Widened (h.resize size) slot width := by
      intro size hinside hbound
      refine ⟨⟨size, rfl, hbound⟩, ?_⟩
      refine hst.fits_of_adjacentRunIsFree ho hfree (objectAt_resize h size) ?_
      rw [length_objects_resize]
      omega
    refine wp_ite (fun hlonger => ?_) fun hinside => ?_
    · rw [wp_bind, wp_set, wp_pure]
      exact .inPlace (hwidened _ (Nat.le_max_right _ _) (Nat.le_max_right _ _))
    · rw [wp_pure]
      have hsame : h.resize h.objects.length = h := resize_self hst.lengths.ge
      have hstays := hwidened h.objects.length (by omega) (Nat.le_max_left _ _)
      rw [hsame] at hstays
      exact .inPlace hstays

theorem checkedMap_eq_ok {m : MapPayload} (hok : h.checkedMap id = .ok (slot, o, m)) :
    h.resolve id = .ok (slot, o) ∧ o.payload = .map m := by
  obtain ⟨⟨slot', o'⟩, hr, hrest⟩ := bind_eq_ok.mp hok
  dsimp only at hrest
  split at hrest
  · next hp =>
    cases hrest
    exact ⟨hr, hp⟩
  · exact nomatch hrest

theorem checkedBuilder_eq_ok {capacity : ℕ} {bytes : List UInt8}
    (hok : h.checkedBuilder id = .ok (slot, o, capacity, bytes)) :
    h.resolve id = .ok (slot, o) ∧ o.payload = .builder capacity bytes := by
  obtain ⟨⟨slot', o'⟩, hr, hrest⟩ := bind_eq_ok.mp hok
  dsimp only at hrest
  split at hrest
  · next hp =>
    cases hrest
    exact ⟨hr, hp⟩
  · exact nomatch hrest

theorem checkedMap_of_resolve {m : MapPayload} (hr : h.resolve id = .ok (slot, o))
    (hp : o.payload = .map m) : h.checkedMap id = .ok (slot, o, m) := by
  rw [checkedMap, hr, ok_bind]
  dsimp only
  rw [hp]
  rfl

theorem checkedBuilder_of_resolve {capacity : ℕ} {bytes : List UInt8}
    (hr : h.resolve id = .ok (slot, o)) (hp : o.payload = .builder capacity bytes) :
    h.checkedBuilder id = .ok (slot, o, capacity, bytes) := by
  rw [checkedBuilder, hr, ok_bind]
  dsimp only
  rw [hp]
  rfl

theorem wp_ensureMapGrowthStorage (hw : h.Wf) (hc : h.incrementalCompactionActive = false)
    (hr : h.resolve id = .ok (slot, o)) {m : MapPayload} (hp : o.payload = .map m)
    (hwidth : o.width ≤ width) (hrest : ∀ value ∈ rest, h.Valid value) :
    wp (ensureMapGrowthStorage id width (.object id :: rest))
      (fun cells' h' => h.Grew h' slot width o (.object id :: rest) cells') (fun _ h' => h' = h)
      h := by
  have hs := hw.toSound
  have hrelocate : wp (relocateMapForGrowth id width (.object id :: rest))
      (fun cells' h' => h.Regrown h' slot width o (.object id :: rest) cells')
      (fun _ h' => h' = h) h := by
    unfold relocateMapForGrowth
    refine wp_query_ok (validateWeakTargets_eq_ok hs.storage hs.weakRefs hs.fields) ?_
    refine wp_query_ok (validateInternTable_eq_ok hs.interns) ?_
    exact wp_relocateForGrowth hw hc hr (by rw [hp]; rfl) hwidth hrest
  unfold ensureMapGrowthStorage
  refine wp_query_ok (checkedMap_of_resolve hr hp) ?_
  exact wp_ensureGrowthStorage hs.storage hr hrelocate

theorem wp_ensureBuilderGrowthStorage (hw : h.Wf) (hc : h.incrementalCompactionActive = false)
    (hr : h.resolve id = .ok (slot, o)) {capacity : ℕ} {bytes : List UInt8}
    (hp : o.payload = .builder capacity bytes) (hrest : ∀ value ∈ rest, h.Valid value) :
    wp (ensureBuilderGrowthStorage id width (.object id :: rest))
      (fun cells' h' => h.Grew h' slot width o (.object id :: rest) cells') (fun _ h' => h' = h)
      h := by
  unfold ensureBuilderGrowthStorage
  refine wp_query_ok (checkedBuilder_of_resolve hr hp) ?_
  refine wp_ite (fun _ => rfl) fun hwidth => ?_
  have hrelocate : wp (relocateBuilderForGrowth id width (.object id :: rest))
      (fun cells' h' => h.Regrown h' slot width o (.object id :: rest) cells')
      (fun _ h' => h' = h) h := by
    unfold relocateBuilderForGrowth
    refine wp_query_ok hw.toSound.validateBeforeCollection_eq_ok ?_
    exact wp_relocateForGrowth hw hc hr (by rw [hp]; rfl) (Nat.le_of_lt (Nat.not_le.mp hwidth))
      hrest
  exact wp_ensureGrowthStorage hw.toSound.storage hr hrelocate

end Growth

end Heap

end LanguageRuntime.Gc
