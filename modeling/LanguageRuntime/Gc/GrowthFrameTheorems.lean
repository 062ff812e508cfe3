import LanguageRuntime.Gc.RetirementTheorems
import LanguageRuntime.Gc.RunTheorems

/-!
# What growth leaves alone

A growth in place changes nothing but the number of slots. A growth relocation renames one
identifier: everything that named the old one names the new one, and everything else is as before.
-/

namespace LanguageRuntime.Gc

open LanguageRuntime LanguageRuntime.Library Heap

/-! ## Renaming one identifier -/

/-- The identifiers after the object of `old` has become the object of `new`. -/
def renameId (old new id : ObjectId) : ObjectId := if id = old then new else id

section Rename

variable {old new id : ObjectId} {o : Object} {value : Value}

@[simp] theorem renameId_old : renameId old new old = new := if_pos rfl

theorem renameId_of_ne (hne : id ≠ old) : renameId old new id = id := if_neg hne

theorem mapObject_renameId (hvalue : value ≠ .object old) :
    value.mapObject (renameId old new) = value := by
  cases value with
  | object id =>
    have hne : id ≠ old := fun heq => hvalue (congrArg Value.object heq)
    rw [Value.mapObject_object, renameId_of_ne hne]
  | _ => rfl

/-- An object that does not name the identifier is not rewritten. -/
theorem forwardFields_renameId (hold : .object old ∉ o.payload.allFields) :
    o.forwardFields (renameId old new) = o := by
  refine Object.ext_payload rfl rfl ?_ rfl
  show o.payload.forward (fun id => some (renameId old new id)) = o.payload
  refine (Payload.forward_congr fun id hid => ?_).trans (Payload.forward_some _)
  rw [renameId_of_ne]
  rintro rfl
  exact hold hid

end Rename

/-! ## The two ways to grow -/

/-- The heap has more slots, the object of `slot` has room for `width` of them, and nothing else
has changed. -/
structure GrownInPlace (h h' : Heap) (slot width : ℕ) : Prop where
  objects : ∀ slot, h'.objectAt slot = h.objectAt slot
  generations : ∀ slot, h'.generationAt slot = h.generationAt slot
  frame : h' = { h with objects := h'.objects, generations := h'.generations }
  inside : slot + width ≤ h'.objects.length
  apart : ∀ slot' o', slot' ≠ slot → h'.objectAt slot' = some o' →
    slot' + o'.width ≤ slot ∨ slot + width ≤ slot'

/-- The object `o` of `old` has become the object of `new`, which has room for `width` slots, and
nothing else has changed. -/
structure GrownElsewhere (h h' : Heap) (old new : ObjectId) (o : Object) (width : ℕ) :
    Prop where
  unissued : h.objects.length ≤ new.slot
  moved : ∃ o', h'.lookup new = some o' ∧ o' = o.forwardFields (renameId old new) ∧
    o'.marked = o.marked ∧ o'.generation = o.generation
  vacated : h'.objectAt old.slot = none
  others : ∀ slot o', slot ≠ old.slot → h.objectAt slot = some o' →
    h'.objectAt slot = some (o'.forwardFields (renameId old new))
  unchanged : ∀ slot o', slot ≠ old.slot → h.objectAt slot = some o' →
    .object old ∉ o'.payload.allFields → h'.objectAt slot = some o'
  nothingElse : ∀ slot o', slot ≠ new.slot → h'.objectAt slot = some o' →
    ∃ o, h.objectAt slot = some o
  generations : ∀ slot, slot ≠ new.slot → h'.generationAt slot = h.generationAt slot
  inside : new.slot + width ≤ h'.objects.length
  apart : ∀ slot o', slot ≠ new.slot → h'.objectAt slot = some o' →
    slot + o'.width ≤ new.slot ∨ new.slot + width ≤ slot
  roots : h'.rootCells = h.rootCells.map (Value.mapObject (renameId old new))
  handles : h'.handleRoots = h.handleRoots.map fun root =>
    { root with slot := root.slot.mapObject (renameId old new) }
  remembered : h'.rememberedSet.Nodup ∧
    ∀ id, id ∈ h'.rememberedSet ↔ id ∈ h.rememberedSet.map (renameId old new)
  weakRefs : h'.weakRefs = h.weakRefs.map (renameId old new)
  ephemerons : h'.ephemerons = h.ephemerons.map (renameId old new)
  internTable : h'.internTable = h.internTable
  idle : h.phase = .idle → h'.phase = .idle
  marking : ∀ worklist, h.phase = .marking worklist →
    h'.phase = .marking (worklist.map (renameId old new))
  stressConfig : h'.stressConfig = h.stressConfig

namespace Heap

section Grown

variable {h h' : Heap} {slot width : ℕ} {o : Object} {id : ObjectId} {rest cells' : List Value}

theorem Widened.grownInPlace (hg : h.Widened h' slot width) (hst : h.Storage)
    (ho : h.objectAt slot = some o) : GrownInPlace h h' slot width := by
  obtain ⟨⟨size, rfl, -⟩, hfits⟩ := hg
  refine ⟨objectAt_resize h size, generationAt_resize h size, rfl, hfits.inside, ?_⟩
  intro slot' o' hne ho'
  by_cases hlt : slot < slot'
  · exact .inr (hfits.clear slot' o' hlt ho')
  · rw [objectAt_resize] at ho'
    exact .inl (hst.disjoint slot' slot o' o (by omega) ho' ho)

/-- Every identifier that resolves is forwarded to its renaming. -/
theorem Grows.forwardBy_eq (hg : h.Grows slot width o) (hid : h.currentId slot = id)
    {newId id' : ObjectId} (hr : h.Resolves id') :
    h.forwardBy (h.growthIds slot newId) id' = some (renameId id newId id') := by
  obtain ⟨o', ho'⟩ := hr.current hg.settled
  have hst := hg.sound.storage
  have hcurrent : h.currentId id'.slot = id' := hst.currentId_of_lookup ho'
  rw [forwardBy_of_resolve (resolve_of_lookup ho')]
  by_cases hslot : id'.slot = slot
  · have heq : id' = id := by rw [← hcurrent, hslot, hid]
    rw [hslot, heq, renameId_old, growthIds_old hg.object]
  · have hne : id' ≠ id := by
      rintro rfl
      refine hslot ?_
      rw [← hid, hst.currentId_eq hg.object]
    rw [renameId_of_ne hne, growthIds_of_ne hslot (objectAt_of_lookup ho'), hcurrent]

/-- The objects of the grown heap are the old ones with the identifier renamed. -/
theorem Grows.forward_eq (hg : h.Grows slot width o) (hid : h.currentId slot = id)
    {newId : ObjectId} {slot' : ℕ} {o' : Object} (ho' : h.objectAt slot' = some o') :
    o'.forward (h.forwardBy (h.growthIds slot newId)) = o'.forwardFields (renameId id newId) := by
  refine Object.ext_payload rfl rfl ?_ rfl
  show o'.payload.forward _ = o'.payload.forward fun id' => some (renameId id newId id')
  refine Payload.forward_congr fun id' hid' => ?_
  exact hg.forwardBy_eq hid (valid_object.mp (hg.sound.fields slot' o' ho' _ hid'))

theorem Grows.forwardRoot_eq (hg : h.Grows slot width o) (hid : h.currentId slot = id)
    {newId : ObjectId} {value : Value} (hv : h.Valid value) :
    h.forwardRoot (h.growthIds slot newId) value = value.mapObject (renameId id newId) := by
  cases value with
  | object id' =>
    rw [forwardRoot, Value.mapObject_object, Value.mapObject_object,
      hg.forwardBy_eq hid (valid_object.mp hv), Option.getD_some]
  | _ => rfl

theorem Grows.filterMap_eq (hg : h.Grows slot width o) (hid : h.currentId slot = id)
    {newId : ObjectId} {ids : List ObjectId} (hids : ∀ id' ∈ ids, h.Resolves id') :
    ids.filterMap (h.forwardBy (h.growthIds slot newId)) = ids.map (renameId id newId) := by
  rw [← List.filterMap_eq_map]
  exact List.filterMap_congr fun id' hid' => hg.forwardBy_eq hid (hids id' hid')

/-- Interned strings do not grow. -/
theorem Grows.forwardInternTable_eq (hg : h.Grows slot width o) (hid : h.currentId slot = id)
    {newId : ObjectId} : h.forwardInternTable (h.growthIds slot newId) = h.internTable := by
  have hkept : ∀ entry ∈ h.internTable, ((h.forwardBy (h.growthIds slot newId) entry.canonical).map
      fun canonical => { entry with canonical := canonical }) = some entry := by
    intro entry hentry
    obtain ⟨o', ho', hlisted⟩ := hg.sound.interns.listed hentry
    have hne : entry.canonical ≠ id := by
      intro heq
      have hobject := objectAt_of_lookup ho'
      rw [heq, ← hid, hg.sound.storage.currentId_eq hg.object, hg.object] at hobject
      cases hobject
      rw [hg.unlisted] at hlisted
      cases hlisted
    rw [hg.forwardBy_eq hid ⟨_, o', resolve_of_lookup ho'⟩, renameId_of_ne hne]
    rfl
  rw [forwardInternTable, List.filterMap_congr hkept, List.filterMap_some]

/-- A growth relocation renames the identifier of the object it moves. -/
theorem Regrown.grownElsewhere {cells : List Value} (hg : h.Regrown h' slot width o cells cells')
    (hp : h.PhaseSound) (hid : h.currentId slot = id) :
    GrownElsewhere h h' id ⟨h.objects.length, kFirstGeneration⟩ o width := by
  obtain ⟨hgrows, ⟨rewritten, hnodup, hmem, rfl⟩, -⟩ := hg
  have hs := hgrows.sound
  have hst := hs.storage
  have hold := lt_length_of_objectAt hgrows.object
  have hwidth : 0 < width := o.width_pos.trans_le hgrows.widens
  have hslot : id.slot = slot := by rw [← hid, hst.currentId_eq hgrows.object]
  have hothers : ∀ slot' o', slot' ≠ id.slot → h.objectAt slot' = some o' →
      (h.grown slot width o rewritten (h.grownPhase slot
        ⟨h.objects.length, kFirstGeneration⟩)).objectAt slot' =
          some (o'.forwardFields (renameId id ⟨h.objects.length, kFirstGeneration⟩)) := by
    intro slot' o' hne ho'
    rw [hslot] at hne
    rw [objectAt_grown hold hwidth, if_neg (lt_length_of_objectAt ho').ne, if_neg hne, ho',
      ← hgrows.forward_eq hid ho']
    rfl
  refine ⟨le_rfl, ?_, ?_, hothers, ?_, ?_, ?_, length_grown.ge, ?_, ?_, ?_, ⟨hnodup, ?_⟩, ?_, ?_,
    ?_, ?_, ?_, rfl⟩
  · refine ⟨_, ?_, rfl, rfl, rfl⟩
    rw [← hgrows.forward_eq hid hgrows.object]
    exact hgrows.target hgrows.object (growthIds_old hgrows.object)
  · rw [hslot, objectAt_grown hold hwidth, if_neg hold.ne, if_pos rfl]
    rfl
  · intro slot' o' hne ho' hunnamed
    rw [hothers slot' o' hne ho', forwardFields_renameId hunnamed]
  · intro slot' o' hne ho'
    obtain ⟨slot₁, o₁, -, ho₁, -, -, -, ⟨-, rfl⟩ | ⟨-, rfl, -⟩⟩ := hgrows.origin ho'
    · exact absurd rfl hne
    · exact ⟨o₁, ho₁⟩
  · intro slot' hne
    rw [generationAt_grown hst hwidth, if_neg hne]
  · intro slot' o' hne ho'
    obtain ⟨slot₁, o₁, -, ho₁, -, -, rfl, ⟨-, rfl⟩ | ⟨-, rfl, -⟩⟩ := hgrows.origin ho'
    · exact absurd rfl hne
    · rw [Object.width_forward]
      exact .inl (hst.inside slot' o₁ ho₁)
  · exact List.map_congr_left fun value hvalue => hgrows.forwardRoot_eq hid (hs.cells value hvalue)
  · refine List.map_congr_left fun root hroot => ?_
    rw [hgrows.forwardRoot_eq hid (hs.handles root hroot)]
  · intro id'
    have hresolves : ∀ id₁ ∈ h.rememberedSet, h.Resolves id₁ := fun id₁ hid₁ =>
      let ⟨o₁, ho₁, _⟩ := hs.remembers.old id₁ hid₁
      ⟨_, o₁, resolve_of_lookup ho₁⟩
    show id' ∈ rewritten ↔ _
    rw [hmem, List.mem_map]
    constructor
    · rintro ⟨id₁, hid₁, hF⟩
      rw [hgrows.forwardBy_eq hid (hresolves id₁ hid₁)] at hF
      exact ⟨id₁, hid₁, Option.some.inj hF⟩
    · rintro ⟨id₁, hid₁, rfl⟩
      exact ⟨id₁, hid₁, hgrows.forwardBy_eq hid (hresolves id₁ hid₁)⟩
  · refine hgrows.filterMap_eq hid fun id' hid' => ?_
    obtain ⟨o', ho', -⟩ := (hs.weakRefs.mem id').mp hid'
    exact ⟨_, o', resolve_of_lookup ho'⟩
  · refine hgrows.filterMap_eq hid fun id' hid' => ?_
    obtain ⟨o', ho', -⟩ := (hs.ephemerons.mem id').mp hid'
    exact ⟨_, o', resolve_of_lookup ho'⟩
  · exact hgrows.forwardInternTable_eq hid
  · intro hidle
    show h.grownPhase _ _ = _
    rw [grownPhase, hidle]
  · intro worklist hmarking
    rw [PhaseSound, hmarking] at hp
    show h.grownPhase _ _ = _
    rw [grownPhase, hmarking]
    refine congrArg Phase.marking (List.map_congr_left fun id' hid' => ?_)
    rw [hgrows.forwardBy_eq hid (hp.grey id' hid').resolves, Option.getD_some]

/-- The identifier a growth relocation has taken from its object stays rejected. -/
theorem Regrown.retired {cells : List Value} (hg : h.Regrown h' slot width o cells cells')
    (hid : h.currentId slot = id) : h'.Retired id := by
  obtain ⟨hgrows, ⟨rewritten, -, -, rfl⟩, -⟩ := hg
  have hst := hgrows.sound.storage
  have hold := lt_length_of_objectAt hgrows.object
  have hwidth : 0 < width := o.width_pos.trans_le hgrows.widens
  rw [hst.currentId_eq hgrows.object] at hid
  subst hid
  have hvacant : (h.grown slot width o rewritten
      (h.grownPhase slot ⟨h.objects.length, kFirstGeneration⟩)).objectAt slot = none := by
    rw [objectAt_grown hold hwidth, if_neg hold.ne, if_pos rfl]
    rfl
  refine ⟨⟨?_, fun _ => ?_⟩, hgrows.storage.lengths, fun c hc => ?_⟩
  · show h.generationAt slot ≤ Heap.generationAt _ slot
    rw [generationAt_grown hst hwidth, if_neg hold.ne]
  · show (serials _).getD slot none = none
    rw [serials, getD_map_option]
    exact congrArg (Option.map Object.serial) hvacant
  · have hsettled : (h.grown slot width o rewritten (h.grownPhase slot
        ⟨h.objects.length, kFirstGeneration⟩)).incrementalCompactionActive = false :=
      grownPhase_settled hgrows.settled
    exact absurd hc (incrementalCompactionActive_eq_false.mp hsettled c)

end Grown

end Heap

/-! ## Growing maps and builders -/

/-- The end of `builderAppend`, after the growth of the storage. -/
def publishGrown (grownCapacity : ℕ) (operands : List Value) : HeapM Unit := do
  let operands ← setGrownCapacity grownCapacity operands
  publishAppended operands

/-- No later heap knows the identifier. -/
def Heap.RejectsForGood (h : Heap) (id : ObjectId) : Prop :=
  ∀ actions : List Action, ¬(h.run actions).Resolves id

/-- The object `o` of `id` has grown in place, or it has moved and the caller's cells name it by
its new identifier; then `id` is rejected for good, also after `publish` has ended the operation. -/
def Heap.GrowsAlone (h h' : Heap) (id : ObjectId) (o : Object) (width : ℕ)
    (cells cells' : List Value) (publish : List Value → HeapM Unit) : Prop :=
  GrownInPlace h h' id.slot width ∧ cells' = cells ∨
    ∃ new, GrownElsewhere h h' id new o width ∧
      cells' = cells.map (Value.mapObject (renameId id new)) ∧ h'.RejectsForGood id ∧
      wp (publish cells') (fun _ h₂ => h₂.RejectsForGood id) (fun _ h₂ => h₂.RejectsForGood id) h'

section Growth

variable {h h' : Heap} {id : ObjectId} {slot width : ℕ} {o : Object} {rest cells' : List Value}

theorem Heap.Retired.rejectsForGood (hr : h.Retired id) : h.RejectsForGood id :=
  fun actions => hr.run actions

theorem Heap.Grew.growsAlone (hg : h.Grew h' slot width o (.object id :: rest) cells')
    (hw : h.Wf) (hc : h.incrementalCompactionActive = false) (hr : h.resolve id = .ok (slot, o))
    (hrest : ∀ value ∈ rest, h.Valid value) {publish : List Value → HeapM Unit}
    (hpublish : ∀ cells, Preserves (Heap.Retired id) (publish cells)) :
    h.GrowsAlone h' id o width (.object id :: rest) cells' publish := by
  have hst := hw.toSound.storage
  obtain ⟨ho, rfl⟩ := lookup_of_resolve hc hr
  cases hg with
  | inPlace hg => exact .inl ⟨hg.grownInPlace hst (objectAt_of_resolve hr), rfl⟩
  | relocated hg =>
    have hid : h.currentId id.slot = id := hst.currentId_of_lookup ho
    have hretired := hg.retired hid
    refine .inr ⟨_, hg.grownElsewhere hw.phase hid, ?_, hretired.rejectsForGood, ?_⟩
    · rw [hg.cells_eq]
      refine List.map_congr_left fun value hvalue => hg.grows.forwardRoot_eq hid ?_
      rcases List.mem_cons.mp hvalue with rfl | hmem
      · exact valid_object.mpr ⟨_, o, hr⟩
      · exact hrest value hmem
    · exact wp_mono (hpublish cells' h' hretired) (fun _ _ hr => hr.rejectsForGood)
        fun _ _ hr => hr.rejectsForGood

theorem publishInserted_retired (operands : List Value) :
    Preserves (Heap.Retired id) (publishInserted operands) :=
  publishInserted_preserves .retired GrowthInvariant.retired.heapInvariant.finishActive _

theorem publishGrown_retired (grownCapacity : ℕ) (operands : List Value) :
    Preserves (Heap.Retired id) (publishGrown grownCapacity operands) :=
  .bind (setGrownCapacity_preserves .retired _ _) fun _ => publishAppended_preserves .retired _

end Growth

end LanguageRuntime.Gc
