import LanguageRuntime.Gc.CollectTheorems

/-!
# Incremental compaction: what identifiers name

During the phase an object is named by its source identifier and, once it has moved, by its
destination identifier as well. The two never clash: a destination slot has reached a new
generation, unless the object stays where it is.
-/

namespace LanguageRuntime.Gc

open LanguageRuntime LanguageRuntime.Library

namespace IncrementalCompaction

variable {c : IncrementalCompaction} {h : Heap} {e e' : IncrementalCompactionEntry}
  {id : ObjectId} {slot : ℕ} {o : Object}

/-! ## The plan -/

theorem Layout.shadowWidth (hl : c.Layout h) (he : e ∈ c.plan) :
    c.shadowWidth e.sourceSlot = e.width := by
  obtain ⟨shadow, hshadow, hwidth⟩ := (hl.planned e he).shadow
  rw [IncrementalCompaction.shadowWidth, hshadow]
  exact hwidth

theorem Layout.width_pos (hl : c.Layout h) (he : e ∈ c.plan) : 0 < e.width := by
  obtain ⟨shadow, -, hwidth⟩ := (hl.planned e he).shadow
  rw [← hwidth]
  exact shadow.payload.storageSlotCount_pos

theorem Layout.shadowWidth_ne_zero (hl : c.Layout h) (he : e ∈ c.plan) :
    c.shadowWidth e.sourceSlot ≠ 0 := by
  have hpos := hl.width_pos he
  rw [hl.shadowWidth he]
  omega

/-- Two entries of the plan differ in their source slots. -/
theorem Layout.eq_of_sourceSlot (hl : c.Layout h) (he : e ∈ c.plan) (he' : e' ∈ c.plan)
    (heq : e.sourceSlot = e'.sourceSlot) : e = e' :=
  eq_of_key_eq hl.sources he he' heq

theorem Layout.destinationSlot_le (hl : c.Layout h) (he : e ∈ c.plan) :
    e.destinationSlot ≤ e.sourceSlot := by
  rw [(hl.planned e he).slides]
  exact slide_le hl.disjoint (hl.shadowWidth_ne_zero he)

/-- The destinations follow the order of the sources, without overlap. -/
theorem Layout.destinationSlot_add_le (hl : c.Layout h) (he : e ∈ c.plan) (he' : e' ∈ c.plan)
    (hlt : e.sourceSlot < e'.sourceSlot) : e.destinationSlot + e.width ≤ e'.destinationSlot := by
  have hslide : slide c.shadowWidth e.sourceSlot + c.shadowWidth e.sourceSlot ≤
      slide c.shadowWidth e'.sourceSlot := slide_add_le hlt
  rwa [hl.shadowWidth he, ← (hl.planned e he).slides, ← (hl.planned e' he').slides] at hslide

theorem Layout.eq_of_destinationSlot (hl : c.Layout h) (he : e ∈ c.plan) (he' : e' ∈ c.plan)
    (heq : e.destinationSlot = e'.destinationSlot) : e = e' := by
  have hwidth := hl.width_pos he
  have hwidth' := hl.width_pos he'
  rcases Nat.lt_trichotomy e.sourceSlot e'.sourceSlot with hlt | hsame | hlt
  · have hle := hl.destinationSlot_add_le he he' hlt
    omega
  · exact hl.eq_of_sourceSlot he he' hsame
  · have hle := hl.destinationSlot_add_le he' he hlt
    omega

theorem Layout.sourceSlot_add_le (hl : c.Layout h) (he : e ∈ c.plan) :
    e.sourceSlot + e.width ≤ h.objects.length := by
  have hinside := hl.inside e.sourceSlot (hl.shadowWidth_ne_zero he)
  rwa [hl.shadowWidth he] at hinside

/-- The sources do not overlap. -/
theorem Layout.sourceSlot_add_le_sourceSlot (hl : c.Layout h) (he : e ∈ c.plan)
    (he' : e' ∈ c.plan) (hlt : e.sourceSlot < e'.sourceSlot) :
    e.sourceSlot + e.width ≤ e'.sourceSlot := by
  have hdisjoint := hl.disjoint _ _ hlt (hl.shadowWidth_ne_zero he) (hl.shadowWidth_ne_zero he')
  rwa [hl.shadowWidth he] at hdisjoint

/-- The plan is executed in the order of the sources. -/
theorem Layout.done_of_lt (hl : c.Layout h) (he : e ∈ c.plan) (hdone : c.Done e')
    (hlt : e.sourceSlot < e'.sourceSlot) : c.Done e :=
  mem_take_of_key_lt hl.sources he hdone hlt

theorem Done.planned (hdone : c.Done e) : e ∈ c.plan := List.mem_of_mem_take hdone

@[simp] theorem slotOf_of_done (hdone : c.Done e) : c.slotOf e = e.destinationSlot :=
  if_pos hdone

@[simp] theorem slotOf_of_not_done (hdone : ¬c.Done e) : c.slotOf e = e.sourceSlot :=
  if_neg hdone

@[simp] theorem idOf_of_done (hdone : c.Done e) : c.idOf e = e.destinationId := if_pos hdone

@[simp] theorem idOf_of_not_done (hdone : ¬c.Done e) : c.idOf e = e.sourceId := if_neg hdone

/-- A waiting source slot has not been overwritten. -/
theorem Layout.destinationSlot_ne (hl : c.Layout h) (he : e ∈ c.plan) (hwaits : ¬c.Done e)
    (hdone : c.Done e') : e'.destinationSlot ≠ e.sourceSlot := by
  intro heq
  have he' := hdone.planned
  have hwidth := hl.width_pos he'
  have hle := hl.destinationSlot_le he
  rcases Nat.lt_trichotomy e'.sourceSlot e.sourceSlot with hlt | hsame | hlt
  · have hdestinations := hl.destinationSlot_add_le he' he hlt
    omega
  · rw [hl.eq_of_sourceSlot he' he hsame] at hdone
    exact hwaits hdone
  · exact hwaits (hl.done_of_lt he hdone hlt)

theorem Layout.generationAt_source (hl : c.Layout h) (he : e ∈ c.plan) (hwaits : ¬c.Done e) :
    h.generationAt e.sourceSlot = e.sourceId.generation := by
  rw [hl.kept e.sourceSlot fun e' _ hdone => hl.destinationSlot_ne he hwaits hdone,
    (hl.planned e he).source]

theorem Layout.slot_sourceId (hl : c.Layout h) (he : e ∈ c.plan) :
    e.sourceId.slot = e.sourceSlot := by
  rw [(hl.planned e he).source]

theorem Layout.destinationId_ne_zero (hl : c.Layout h) (he : e ∈ c.plan) :
    e.destinationId.generation ≠ 0 := by
  refine destinationGeneration_ne_zero (hl.planned e he).generation fun hstays => ?_
  have hnamed := (hl.planned e he).named
  rwa [(hl.planned e he).source, hstays] at hnamed

/-- An object that stays keeps its identifier. -/
theorem Layout.destinationId_of_stays (hl : c.Layout h) (he : e ∈ c.plan)
    (hstays : e.sourceSlot = e.destinationSlot) : e.destinationId = e.sourceId := by
  have hp := hl.planned e he
  rcases destinationGeneration_eq_ok hp.generation with ⟨hne, -⟩ | ⟨-, hgeneration⟩
  · exact absurd hstays hne
  · have hdestination : e.destinationId = ⟨e.destinationId.slot, e.destinationId.generation⟩ := rfl
    rw [hdestination, hp.destination, hgeneration, hp.source, hstays]

/-- A slot that an object has moved into has a new generation. -/
theorem Layout.generation_lt (hl : c.Layout h) (he : e ∈ c.plan)
    (hmoves : e.sourceSlot ≠ e.destinationSlot) :
    c.shadowGenerations.getD e.destinationSlot 0 < e.destinationId.generation := by
  rcases destinationGeneration_eq_ok (hl.planned e he).generation with ⟨-, hlt⟩ | ⟨heq, -⟩
  · exact hlt
  · exact absurd heq hmoves

/-! ## What identifiers name -/

theorem Layout.slot_idOf (hl : c.Layout h) (he : e ∈ c.plan) :
    (c.idOf e).slot = c.slotOf e := by
  by_cases hdone : c.Done e
  · rw [idOf_of_done hdone, slotOf_of_done hdone, (hl.planned e he).destination]
  · rw [idOf_of_not_done hdone, slotOf_of_not_done hdone, hl.slot_sourceId he]

theorem Layout.generation_idOf (hl : c.Layout h) (he : e ∈ c.plan) :
    h.generationAt (c.slotOf e) = (c.idOf e).generation ∧ (c.idOf e).generation ≠ 0 := by
  by_cases hdone : c.Done e
  · rw [idOf_of_done hdone, slotOf_of_done hdone]
    exact ⟨hl.reached e he hdone, hl.destinationId_ne_zero he⟩
  · rw [idOf_of_not_done hdone, slotOf_of_not_done hdone]
    exact ⟨hl.generationAt_source he hdone, (hl.planned e he).named⟩

theorem Layout.lookup_idOf (hl : c.Layout h) (he : e ∈ c.plan) :
    h.lookup (c.idOf e) = h.objectAt (c.slotOf e) := by
  obtain ⟨hgeneration, hne⟩ := hl.generation_idOf he
  rw [Heap.lookup, hl.slot_idOf he, if_pos ⟨hne, hgeneration⟩]

/-- An identifier that is found is the current one of an object of the plan. -/
theorem Layout.eq_idOf_of_lookup (hl : c.Layout h) (ho : h.lookup id = some o) :
    ∃ e ∈ c.plan, id = c.idOf e := by
  obtain ⟨-, hgeneration, hobject⟩ := Heap.lookup_eq_some.mp ho
  obtain ⟨e, he, hslot⟩ := hl.occupied id.slot o hobject
  obtain ⟨hidOf, -⟩ := hl.generation_idOf he
  refine ⟨e, he, ?_⟩
  have hslots : id.slot = (c.idOf e).slot := hslot.symm.trans (hl.slot_idOf he).symm
  have hgenerations : id.generation = (c.idOf e).generation := by
    rw [← hgeneration, ← hslot, hidOf]
  calc id = ⟨id.slot, id.generation⟩ := rfl
    _ = ⟨(c.idOf e).slot, (c.idOf e).generation⟩ := by rw [hslots, hgenerations]
    _ = c.idOf e := rfl

theorem names_idOf (he : e ∈ c.plan) : c.Names (c.idOf e) e := by
  refine ⟨he, ?_⟩
  by_cases hdone : c.Done e
  · exact .inr ⟨hdone, idOf_of_done hdone⟩
  · exact .inl (idOf_of_not_done hdone)

/-- An identifier names one object. -/
theorem Layout.names_unique (hl : c.Layout h) (hn : c.Names id e) (hn' : c.Names id e') :
    e = e' := by
  have hslots : ∀ {a b : IncrementalCompactionEntry}, a ∈ c.plan → b ∈ c.plan →
      a.sourceId = b.destinationId → a = b := by
    intro a b ha hb heq
    have hslot : a.sourceSlot = b.destinationSlot := by
      rw [← hl.slot_sourceId ha, heq, (hl.planned b hb).destination]
    by_cases hmoves : b.sourceSlot = b.destinationSlot
    · exact hl.eq_of_sourceSlot ha hb (hslot.trans hmoves.symm)
    · have hlt := hl.generation_lt hb hmoves
      rw [← heq, (hl.planned a ha).source, hslot] at hlt
      exact absurd hlt (Nat.lt_irrefl _)
  rcases hn.named with hid | ⟨-, hid⟩ <;> rcases hn'.named with hid' | ⟨-, hid'⟩
  · refine hl.eq_of_sourceSlot hn.planned hn'.planned ?_
    rw [← hl.slot_sourceId hn.planned, ← hl.slot_sourceId hn'.planned, ← hid, hid']
  · exact hslots hn.planned hn'.planned (hid.symm.trans hid')
  · exact (hslots hn'.planned hn.planned (hid'.symm.trans hid)).symm
  · refine hl.eq_of_destinationSlot hn.planned hn'.planned ?_
    rw [← (hl.planned e hn.planned).destination, ← (hl.planned e' hn'.planned).destination,
      ← hid, hid']

theorem Layout.sourceIds_sourceId (hl : c.Layout h) (he : e ∈ c.plan) :
    c.sourceIds.getD e.sourceId.slot none = some e.sourceId :=
  (hl.sourceIds _ _).mpr ⟨e, he, (hl.slot_sourceId he).symm, rfl⟩

/-- Two objects of the plan differ in their slots. -/
theorem Layout.eq_of_slotOf (hl : c.Layout h) (he : e ∈ c.plan) (he' : e' ∈ c.plan)
    (heq : c.slotOf e = c.slotOf e') : e = e' := by
  obtain ⟨hgeneration, -⟩ := hl.generation_idOf he
  obtain ⟨hgeneration', -⟩ := hl.generation_idOf he'
  have hids : c.idOf e = c.idOf e' :=
    calc c.idOf e = ⟨(c.idOf e).slot, (c.idOf e).generation⟩ := rfl
      _ = ⟨(c.idOf e').slot, (c.idOf e').generation⟩ := by
        rw [hl.slot_idOf he, hl.slot_idOf he', ← hgeneration, ← hgeneration', heq]
      _ = c.idOf e' := rfl
  exact hl.names_unique (names_idOf he) (hids ▸ names_idOf he')

/-- The forwarding of a source identifier. -/
theorem Layout.forwarded_sourceId (hl : c.Layout h) (he : e ∈ c.plan) :
    c.forwarded e.sourceId = if c.Done e then some e.destinationId else none := by
  rw [forwarded, if_pos (hl.sourceIds_sourceId he), hl.slot_sourceId he]
  by_cases hdone : c.Done e
  · rw [if_pos hdone]
    exact (hl.forwarding _ _).mpr ⟨e, he, hdone, rfl, rfl⟩
  · rw [if_neg hdone, Option.eq_none_iff_forall_ne_some]
    intro id hid
    obtain ⟨e', he', hdone', hslot, -⟩ := (hl.forwarding _ _).mp hid
    rw [hl.eq_of_sourceSlot he' he hslot] at hdone'
    exact hdone hdone'

theorem Layout.forwarded_eq_some (hl : c.Layout h) {destination : ObjectId} :
    c.forwarded id = some destination ↔
      ∃ e ∈ c.plan, c.Done e ∧ id = e.sourceId ∧ destination = e.destinationId := by
  constructor
  · intro hforwarded
    have hsource : c.sourceIds.getD id.slot none = some id := by
      by_contra hne
      rw [forwarded, if_neg hne] at hforwarded
      exact nomatch hforwarded
    obtain ⟨e, he, -, rfl⟩ := (hl.sourceIds _ _).mp hsource
    rw [hl.forwarded_sourceId he] at hforwarded
    split at hforwarded
    · next hdone =>
      cases hforwarded
      exact ⟨e, he, hdone, rfl, rfl⟩
    · exact nomatch hforwarded
  · rintro ⟨e, he, hdone, rfl, rfl⟩
    rw [hl.forwarded_sourceId he, if_pos hdone]

theorem forwardedId_of_phase (hphase : h.phase = .compacting c) :
    h.forwardedId = c.forwarded := by
  funext id
  rw [Heap.forwardedId, hphase]

/-- An identifier that names an object of the plan resolves to it, wherever it is. -/
theorem Layout.resolve_of_names (hl : c.Layout h) (hphase : h.phase = .compacting c)
    (hn : c.Names id e) (ho : h.objectAt (c.slotOf e) = some o) :
    h.resolve id = .ok (c.slotOf e, o) := by
  have hlookup : h.lookup (c.idOf e) = some o := (hl.lookup_idOf hn.planned).trans ho
  have hslot := hl.slot_idOf hn.planned
  rw [Heap.resolve_eq_ok_iff]
  by_cases hcurrent : id = c.idOf e
  · rw [hcurrent]
    exact .inl ⟨hlookup, hslot.symm⟩
  · -- a stale source identifier goes through the forwarding
    have hsource : c.Done e ∧ id = e.sourceId := by
      rcases hn.named with hid | ⟨hdone, hid⟩
      · by_cases hdone : c.Done e
        · exact ⟨hdone, hid⟩
        · rw [idOf_of_not_done hdone] at hcurrent
          exact absurd hid hcurrent
      · rw [idOf_of_done hdone] at hcurrent
        exact absurd hid hcurrent
    obtain ⟨hdone, rfl⟩ := hsource
    refine .inr ⟨?_, e.destinationId, ?_, ?_, ?_⟩
    · cases hstale : h.lookup e.sourceId with
      | none => rfl
      | some o' =>
        obtain ⟨e', he', heq⟩ := hl.eq_idOf_of_lookup hstale
        have hsame : e = e' := hl.names_unique hn (heq ▸ names_idOf he')
        rw [← hsame] at heq
        exact absurd heq hcurrent
    · rw [forwardedId_of_phase hphase, hl.forwarded_sourceId hn.planned, if_pos hdone]
    · rwa [idOf_of_done hdone] at hlookup
    · rw [slotOf_of_done hdone, (hl.planned e hn.planned).destination]

/-- What an identifier resolves to. -/
theorem Layout.resolve_iff (hl : c.Layout h) (hphase : h.phase = .compacting c) :
    h.resolve id = .ok (slot, o) ↔
      ∃ e, c.Names id e ∧ slot = c.slotOf e ∧ h.objectAt slot = some o := by
  constructor
  · intro hr
    have hobject := Heap.objectAt_of_resolve hr
    rcases Heap.resolve_eq_ok_iff.mp hr with ⟨hlookup, rfl⟩ | ⟨-, destination, hd, hlookup, rfl⟩
    · obtain ⟨e, he, heq⟩ := hl.eq_idOf_of_lookup hlookup
      exact ⟨e, heq ▸ names_idOf he, heq ▸ hl.slot_idOf he, hobject⟩
    · rw [forwardedId_of_phase hphase, hl.forwarded_eq_some] at hd
      obtain ⟨e, he, hdone, rfl, rfl⟩ := hd
      refine ⟨e, ⟨he, .inl rfl⟩, ?_, hobject⟩
      rw [slotOf_of_done hdone, (hl.planned e he).destination]
  · rintro ⟨e, hn, rfl, ho⟩
    exact hl.resolve_of_names hphase hn ho

theorem Layout.resolves_iff (hl : c.Layout h) (hphase : h.phase = .compacting c) :
    h.Resolves id ↔ ∃ e, c.Names id e := by
  constructor
  · rintro ⟨slot, o, hr⟩
    obtain ⟨e, hn, -⟩ := (hl.resolve_iff hphase).mp hr
    exact ⟨e, hn⟩
  · rintro ⟨e, hn⟩
    obtain ⟨o, -, ho, -⟩ := hl.objects e hn.planned
    exact ⟨_, o, hl.resolve_of_names hphase hn ho⟩

/-! ## Source identifiers -/

theorem Layout.sourceIds_eq_some (hl : c.Layout h) (hn : c.Names id e) :
    c.sourceIds.getD id.slot none = some id ↔ id = e.sourceId := by
  constructor
  · intro hsource
    obtain ⟨e', he', -, rfl⟩ := (hl.sourceIds _ _).mp hsource
    rw [hl.names_unique hn ⟨he', .inl rfl⟩]
  · rintro rfl
    exact hl.sourceIds_sourceId hn.planned

/-- An identifier that is no source identifier is found in the plan by its destination. -/
theorem Layout.find?_destinationId (hl : c.Layout h) (he : e ∈ c.plan) :
    c.plan.find? (fun e' => e'.destinationId = e.destinationId) = some e := by
  cases hfind : c.plan.find? (fun e' => e'.destinationId = e.destinationId) with
  | none => simpa using List.find?_eq_none.mp hfind e he
  | some e' =>
    have hsame : e'.destinationId = e.destinationId := by simpa using List.find?_some hfind
    have he' := List.mem_of_find?_eq_some hfind
    refine congrArg some (hl.eq_of_destinationSlot he' he ?_)
    rw [← (hl.planned e' he').destination, ← (hl.planned e he).destination, hsame]

theorem Layout.sourceOf_of_names (hl : c.Layout h) (hn : c.Names id e) :
    c.sourceOf id = e.sourceId := by
  rw [sourceOf]
  split
  · next hsource => exact (hl.sourceIds_eq_some hn).mp hsource
  · next hsource =>
    rw [hl.sourceIds_eq_some hn] at hsource
    rcases hn.named with hid | ⟨-, rfl⟩
    · exact absurd hid hsource
    · rw [hl.find?_destinationId hn.planned]
      rfl

/-- Only the tables of the phase decide what the source identifier is. -/
theorem Layout.normalizeShadowValue_eq_ok (hl : c.Layout h) (hphase : h.phase = .compacting c)
    {value : Value} (hv : h.Valid value) (h' : Heap) :
    h'.normalizeShadowValue c value = .ok (value.mapObject c.sourceOf) := by
  cases value with
  | object id =>
    obtain ⟨e, hn⟩ := (hl.resolves_iff hphase).mp (Heap.valid_object.mp hv)
    rw [Value.mapObject_object, hl.sourceOf_of_names hn, Heap.normalizeShadowValue]
    split
    · next hsource => rw [(hl.sourceIds_eq_some hn).mp hsource]
    · next hsource =>
      rw [hl.sourceIds_eq_some hn] at hsource
      rcases hn.named with hid | ⟨-, rfl⟩
      · exact absurd hid hsource
      · rw [hl.find?_destinationId hn.planned]
  | _ => rfl

/-- The shadow of the object an identifier names. -/
theorem Layout.shadowObject_eq_ok (hl : c.Layout h) (hphase : h.phase = .compacting c)
    (hn : c.Names id e) {shadow : Object}
    (hshadow : c.shadowObjects.getD e.sourceSlot none = some shadow) (h' : Heap) :
    h'.shadowObject c id = .ok (e.sourceSlot, shadow) := by
  have hv : h.Valid (.object id) := Heap.valid_object.mpr ((hl.resolves_iff hphase).mpr ⟨e, hn⟩)
  rw [Heap.shadowObject, hl.normalizeShadowValue_eq_ok hphase hv h', ok_bind,
    Value.mapObject_object, hl.sourceOf_of_names hn]
  simp only [hl.slot_sourceId hn.planned, hshadow]
  rfl

end IncrementalCompaction

/-! ## The current identifier of what an identifier names -/

namespace Heap

/-- The identifier the object named by `id` has now. -/
def canonical (h : Heap) (id : ObjectId) : ObjectId :=
  match h.resolve id with
  | .ok (slot, _) => h.currentId slot
  | .error _ => id

variable {h : Heap} {id : ObjectId} {slot : ℕ} {o : Object} {value : Value}

theorem canonical_of_resolve (hr : h.resolve id = .ok (slot, o)) :
    h.canonical id = h.currentId slot := by
  rw [canonical, hr]

theorem Storage.resolve_canonical (hs : h.Storage) (hr : h.resolve id = .ok (slot, o)) :
    h.resolve (h.canonical id) = .ok (slot, o) := by
  rw [canonical_of_resolve hr]
  exact hs.resolve_currentId (objectAt_of_resolve hr)

theorem Storage.lookup_canonical (hs : h.Storage) (hr : h.resolve id = .ok (slot, o)) :
    h.lookup (h.canonical id) = some o := by
  rw [canonical_of_resolve hr]
  exact hs.lookup_currentId (objectAt_of_resolve hr)

/-- A current identifier is canonical. -/
theorem Storage.canonical_of_lookup (hs : h.Storage) (ho : h.lookup id = some o) :
    h.canonical id = id := by
  rw [canonical_of_resolve (resolve_of_lookup ho)]
  exact hs.currentId_of_lookup ho

theorem Storage.canonical_of_inactive (hs : h.Storage)
    (hphase : h.incrementalCompactionActive = false) (id : ObjectId) : h.canonical id = id := by
  cases hr : h.resolve id with
  | error e => rw [canonical, hr]
  | ok found => exact hs.canonical_of_lookup (lookup_of_resolve hphase hr).1

theorem Storage.valid_canonical (hs : h.Storage) (hv : h.Valid value) :
    h.Valid (value.mapObject h.canonical) := by
  cases value with
  | object id =>
    obtain ⟨slot, o, hr⟩ := valid_object.mp hv
    exact valid_object.mpr ⟨slot, o, hs.resolve_canonical hr⟩
  | _ => exact hv

end Heap

namespace IncrementalCompaction

open Heap

variable {c : IncrementalCompaction} {h : Heap} {e : IncrementalCompactionEntry}
  {id : ObjectId} {value : Value}

theorem Layout.canonical_of_names (hl : c.Layout h) (hs : h.Storage)
    (hphase : h.phase = .compacting c) (hn : c.Names id e) : h.canonical id = c.idOf e := by
  obtain ⟨o, -, ho, -⟩ := hl.objects e hn.planned
  have hlookup : h.lookup (c.idOf e) = some o := (hl.lookup_idOf hn.planned).trans ho
  rw [canonical_of_resolve (hl.resolve_of_names hphase hn ho), ← hl.slot_idOf hn.planned]
  exact hs.currentId_of_lookup hlookup

/-- During the phase a read returns the current identifier. -/
theorem Layout.rewriteValue_eq_ok (hl : c.Layout h) (hs : h.Storage)
    (hphase : h.phase = .compacting c) (hv : h.Valid value) :
    h.rewriteIncrementalCompactionValue false value = .ok (value.mapObject h.canonical) := by
  cases value with
  | object id =>
    have hresolves := valid_object.mp hv
    obtain ⟨e, hn⟩ := (hl.resolves_iff hphase).mp hresolves
    obtain ⟨o, -, ho, -⟩ := hl.objects e hn.planned
    have hchecked : h.checkedSlot id = .ok (c.slotOf e) :=
      checkedSlot_eq_ok.mpr ⟨o, hl.resolve_of_names hphase hn ho⟩
    rw [Value.mapObject_object, hl.canonical_of_names hs hphase hn]
    simp only [rewriteIncrementalCompactionValue, hphase]
    split
    · next hsource =>
      obtain rfl := (hl.sourceIds_eq_some hn).mp hsource
      have hforwarded := hl.forwarded_sourceId hn.planned
      rw [IncrementalCompaction.forwarded, if_pos hsource] at hforwarded
      rw [hforwarded]
      by_cases hdone : c.Done e
      · have hdestination : h.checkedSlot e.destinationId = .ok (c.slotOf e) :=
          checkedSlot_eq_ok.mpr ⟨o, hl.resolve_of_names hphase ⟨hn.planned, .inr ⟨hdone, rfl⟩⟩ ho⟩
        simp only [if_pos hdone, hdestination, ok_bind]
        rw [idOf_of_done hdone]
        rfl
      · simp only [if_neg hdone, Bool.false_eq_true, if_false, hchecked, ok_bind]
        rw [idOf_of_not_done hdone]
        rfl
    · next hsource =>
      rw [hl.sourceIds_eq_some hn] at hsource
      rcases hn.named with hid | ⟨hdone, rfl⟩
      · exact absurd hid hsource
      · simp only [hchecked, ok_bind]
        rw [idOf_of_done hdone]
        rfl
  | _ => rfl

end IncrementalCompaction

end LanguageRuntime.Gc
