import LanguageRuntime.Gc.IncrementalTheorems

/-!
# The end of incremental compaction

Once every object of the plan has moved, the final rewrite leaves destination identifiers only.
The result is what an atomic compaction of the shadow heap gives, so the differential check
passes.
-/

namespace LanguageRuntime.Gc

open LanguageRuntime LanguageRuntime.Library

/-! ## Renaming payloads -/

namespace Payload

section Rename

variable {p : Payload}

theorem forward_congr {F G : ObjectId → Option ObjectId}
    (h : ∀ id, .object id ∈ p.allFields → F id = G id) : p.forward F = p.forward G := by
  have hstrong : p.mapReferenceFields (fun id => (F id).getD id) =
      p.mapReferenceFields fun id => (G id).getD id :=
    mapReferenceFields_congr fun id hid => by rw [h id (List.mem_append_left _ hid)]
  rw [forward, forward, hstrong]
  cases p with
  | weakRef target =>
    cases target with
    | object id =>
      have hid : F id = G id := h id (by simp [allFields, weakFields])
      simp [mapReferenceFields, forwardWeakTarget, hid, forwardEphemeron]
    | _ => rfl
  | ephemeron key value valueIsRef =>
    cases key with
    | object key =>
      have hkey : F key = G key := h key (by simp [allFields, weakFields])
      have hvalue : (if valueIsRef then value.mapObject fun id => (F id).getD id else value) =
          if valueIsRef then value.mapObject fun id => (G id).getD id else value := by
        cases valueIsRef with
        | false => rfl
        | true =>
          cases value with
          | object id =>
            have hid : F id = G id := h id (by simp [allFields, weakFields])
            simp [hid]
          | _ => rfl
      simp only [mapReferenceFields, forwardWeakTarget, forwardEphemeron, hkey, hvalue]
    | _ => rfl
  | _ => rfl

/-- Renaming twice is renaming once. -/
theorem forward_forward (f g : ObjectId → ObjectId) :
    (p.forward fun id => some (f id)).forward (fun id => some (g id)) =
      p.forward fun id => some (g (f id)) := by
  have hvalue : ∀ value : Value, (value.mapObject f).mapObject g =
      value.mapObject fun id => g (f id) := fun value => by cases value <;> rfl
  have hentry : ∀ keyIsRef valueIsRef (entry : MapEntry),
      (entry.mapReferenceFields f keyIsRef valueIsRef).mapReferenceFields g keyIsRef valueIsRef =
        entry.mapReferenceFields (fun id => g (f id)) keyIsRef valueIsRef := by
    intro keyIsRef valueIsRef entry
    cases keyIsRef <;> cases valueIsRef <;> simp [MapEntry.mapReferenceFields, hvalue]
  cases p with
  | weakRef target => cases target <;> rfl
  | ephemeron key value valueIsRef =>
    cases key <;> cases valueIsRef <;> cases value <;> rfl
  | pair left right =>
    simp [forward, mapReferenceFields, forwardWeakTarget, forwardEphemeron, hvalue]
  | refArray elements =>
    simp [forward, mapReferenceFields, forwardWeakTarget, forwardEphemeron, hvalue]
  | map m =>
    simp only [forward, mapReferenceFields, forwardWeakTarget, forwardEphemeron, List.map_map,
      Option.getD_some]
    congr 2
    exact List.map_congr_left fun entry _ => hentry m.keyIsRef m.valueIsRef entry
  | closure | record | «variant» =>
    simp [forward, mapReferenceFields, forwardWeakTarget, forwardEphemeron, mapMarkedFields_comp]
  | _ => rfl

/-- A total renaming forwards everything. -/
theorem forwards_total (f : ObjectId → ObjectId) : p.Forwards fun id => some (f id) :=
  ⟨fun _ _ => rfl, fun _ _ _ _ => rfl⟩

/-- The references of a renamed payload are renamed references. -/
theorem mem_allFields_rename {f : ObjectId → ObjectId} (hshape : p.DescriptorShape)
    {id' : ObjectId} (hid' : .object id' ∈ (p.forward fun id => some (f id)).allFields) :
    ∃ id, .object id ∈ p.allFields ∧ f id = id' := by
  obtain ⟨id, hid, heq⟩ := mem_allFields_forward (forwards_total f) hshape hid'
  exact ⟨id, hid, Option.some.inj heq⟩

end Rename

end Payload

/-! ## The final rewrite -/

namespace IncrementalCompaction

open Heap

section Quiescent

variable {c : IncrementalCompaction} {h : Heap} {e : IncrementalCompactionEntry}
  {id : ObjectId} {value : Value}

theorem done_of_quiescent (hq : c.cursor = c.plan.length) (he : e ∈ c.plan) : c.Done e := by
  rw [Done, hq, List.take_length]
  exact he

/-- Once every object has moved, the final rewrite of a value succeeds. -/
theorem Layout.finalValue_eq_ok (hl : c.Layout h) (hst : h.Storage)
    (hphase : h.phase = .compacting c) (hq : c.cursor = c.plan.length) (hv : h.Valid value) :
    h.rewriteIncrementalCompactionValue true value = .ok (h.canonicalValue value) := by
  have hread := hl.rewriteValue_eq_ok hst hphase hv
  cases value with
  | object id =>
    obtain ⟨e, hn⟩ := (hl.resolves_iff hphase).mp (valid_object.mp hv)
    have hdone := done_of_quiescent hq hn.planned
    show _ = Except.ok ((Value.object id).mapObject h.canonical)
    rw [← hread]
    simp only [rewriteIncrementalCompactionValue, hphase]
    split
    · next hsource =>
      obtain rfl := (hl.sourceIds_eq_some hn).mp hsource
      have hforwarded := hl.forwarded_sourceId hn.planned
      rw [IncrementalCompaction.forwarded, if_pos hsource, if_pos hdone] at hforwarded
      rw [hforwarded]
    · rfl
  | _ => rfl

theorem Layout.finalId_eq (hl : c.Layout h) (hst : h.Storage)
    (hphase : h.phase = .compacting c) (hq : c.cursor = c.plan.length) (hid : h.Resolves id) :
    h.finalId id = h.canonical id := by
  rw [finalId, hl.finalValue_eq_ok hst hphase hq (valid_object.mpr hid)]
  rfl

/-- Everything that has moved is old. -/
theorem Layout.allOld (hl : c.Layout h) (hq : c.cursor = c.plan.length) : h.AllOld := by
  intro slot o ho
  obtain ⟨e, he, rfl⟩ := hl.occupied slot o ho
  have hdone := done_of_quiescent hq he
  rw [slotOf_of_done hdone] at ho
  exact hl.moved e he hdone o ho

end Quiescent

end IncrementalCompaction

namespace Heap

/-- The heap after the final rewrite, in the phase given. -/
def finalized (h : Heap) (phase : Phase) : Heap :=
  { h.mapRoots h.canonicalValue with
    objects := h.objects.map (Option.map (Object.forwardFields h.finalId))
    rememberedSet := []
    phase := phase }

/-- Every object keeps its identifier. -/
def currentIds (h : Heap) (slot : ℕ) : Option ObjectId :=
  (h.objectAt slot).map fun _ => h.currentId slot

section Finalized

variable {h : Heap} {c : IncrementalCompaction} {phase : Phase} {id : ObjectId} {slot : ℕ}
  {o : Object}

theorem objectAt_finalized (h : Heap) (phase : Phase) (slot : ℕ) :
    (h.finalized phase).objectAt slot =
      (h.objectAt slot).map (Object.forwardFields h.finalId) :=
  getD_map_option _ _ _

theorem forwardBy_currentIds (hid : h.Resolves id) :
    h.forwardBy h.currentIds id = some (h.canonical id) := by
  obtain ⟨slot, o, hr⟩ := hid
  rw [forwardBy_of_resolve hr, canonical_of_resolve hr, currentIds, objectAt_of_resolve hr]
  rfl

theorem lookup_finalized (h : Heap) (phase : Phase) (id : ObjectId) :
    (h.finalized phase).lookup id = (h.lookup id).map (Object.forwardFields h.finalId) := by
  have hobject := objectAt_finalized h phase id.slot
  show (if id.generation ≠ 0 ∧ h.generationAt id.slot = id.generation then
    (h.finalized phase).objectAt id.slot else none) = _
  rw [hobject, lookup]
  split <;> rfl

theorem width_forwardFields (f : ObjectId → ObjectId) (o : Object) :
    (o.forwardFields f).width = o.width :=
  o.payload.storageSlotCount_forward fun id => some (f id)

theorem Storage.finalized (hst : h.Storage) : (h.finalized phase).Storage := by
  have hlength : (h.finalized phase).objects.length = h.objects.length := List.length_map _
  refine ⟨hlength ▸ hst.size, hlength ▸ hst.lengths, ?_, ?_, ?_⟩
  · intro slot o' ho'
    rw [objectAt_finalized, Option.map_eq_some_iff] at ho'
    obtain ⟨o, ho, rfl⟩ := ho'
    rw [width_forwardFields, hlength]
    exact hst.inside slot o ho
  · intro slot slot' o₁ o₂ hlt ho₁ ho₂
    rw [objectAt_finalized, Option.map_eq_some_iff] at ho₁ ho₂
    obtain ⟨o, ho, rfl⟩ := ho₁
    obtain ⟨o', ho', rfl⟩ := ho₂
    rw [width_forwardFields]
    exact hst.disjoint slot slot' o o' hlt ho ho'
  · intro slot o' ho'
    rw [objectAt_finalized, Option.map_eq_some_iff] at ho'
    obtain ⟨o, ho, rfl⟩ := ho'
    exact hst.named slot o ho

/-- The final rewrite is a relocation under which every object stays. -/
theorem Sound.relocates_finalized (hs : h.Sound)
    (hfinal : ∀ id, h.Resolves id → h.finalId id = h.canonical id) :
    h.Relocates (h.finalized phase) h.currentIds where
  target slot o id' ho hφ := by
    rw [currentIds, ho] at hφ
    cases hφ
    refine ⟨o.forwardFields h.finalId, ?_, ?_⟩
    · rw [lookup_finalized, hs.storage.lookup_currentId ho]
      rfl
    · show o.payload.forward (fun id => some (h.finalId id)) = _
      refine Payload.forward_congr fun id hid => ?_
      have hresolves := valid_object.mp (hs.fields slot o ho _ hid)
      rw [forwardBy_currentIds hresolves, hfinal id hresolves]
  origin slot' o' ho' := by
    rw [objectAt_finalized, Option.map_eq_some_iff] at ho'
    obtain ⟨o, ho, rfl⟩ := ho'
    refine ⟨slot', o, h.currentId slot', ho, by rw [currentIds, ho]; rfl, ?_⟩
    rw [hs.storage.currentId_eq ho]
  ordered slot₁ slot₂ o₁ o₂ id₁ id₂ ho₁ ho₂ hφ₁ hφ₂ _ _ hlt := by
    rw [currentIds, ho₁] at hφ₁
    rw [currentIds, ho₂] at hφ₂
    cases hφ₁
    cases hφ₂
    rw [hs.storage.currentId_eq ho₁, hs.storage.currentId_eq ho₂]
    exact hlt
  closed slot o ho _ := by
    have hsome : ∀ id, .object id ∈ o.payload.allFields →
        (h.forwardBy h.currentIds id).isSome = true := fun id hid => by
      rw [forwardBy_currentIds (valid_object.mp (hs.fields slot o ho _ hid))]
      rfl
    refine ⟨fun id hid => hsome id (List.mem_append_left _ hid), fun key value hp _ => ?_⟩
    exact hsome value (by simp [hp, Payload.allFields, Payload.weakFields])

/-- A current identifier is forwarded to itself. -/
theorem Storage.forwardBy_currentIds_of_current (hst : h.Storage) (hid : h.Current id) :
    h.forwardBy h.currentIds id = some id := by
  obtain ⟨o, ho⟩ := hid
  rw [forwardBy_currentIds ⟨_, _, resolve_of_lookup ho⟩, hst.canonical_of_lookup ho]

theorem Storage.filterMap_currentIds (hst : h.Storage) {ids : List ObjectId}
    (hids : ∀ id ∈ ids, h.Current id) : ids.filterMap (h.forwardBy h.currentIds) = ids := by
  rw [List.filterMap_congr fun id hid => hst.forwardBy_currentIds_of_current (hids id hid)]
  exact List.filterMap_some

theorem Sound.finalized (hs : h.Sound) (hold : h.AllOld)
    (hfinal : ∀ id, h.Resolves id → h.finalId id = h.canonical id) :
    (h.finalized phase).Sound := by
  have hr : h.Relocates (h.finalized phase) h.currentIds := hs.relocates_finalized hfinal
  have hst' : (h.finalized phase).Storage := hs.storage.finalized
  have hvalid : ∀ value, h.Valid value → (h.finalized phase).Valid (h.canonicalValue value) := by
    intro value hv
    cases value with
    | object id =>
      have hF := forwardBy_currentIds (valid_object.mp hv)
      exact valid_object.mpr (hr.current hF).resolves
    | _ => exact valid_of_not_isObject rfl
  have hold' : (h.finalized phase).AllOld := by
    intro slot o' ho'
    rw [objectAt_finalized, Option.map_eq_some_iff] at ho'
    obtain ⟨o, ho, rfl⟩ := ho'
    exact hold slot o ho
  refine hs.relocates hr hst' ?_ ?_ ⟨List.nodup_nil, nofun, ?_⟩ ?_ ?_ ?_
  · intro value hvalue
    obtain ⟨root, hroot, rfl⟩ := List.mem_map.mp hvalue
    exact hvalid root (hs.cells root hroot)
  · intro root' hroot'
    obtain ⟨root, hroot, rfl⟩ := List.mem_map.mp hroot'
    exact hvalid root.slot (hs.handles root hroot)
  · -- no reference names a young object, since there is none
    rintro slot o' ho' - id hid ⟨slot₁, o₁, hr₁, hyoung⟩
    have hisOld := hold' slot₁ o₁ (objectAt_of_resolve hr₁)
    unfold Object.isYoung Object.isOld at *
    simp_all
  · exact (hs.storage.filterMap_currentIds fun id hid =>
      let ⟨o, ho, _⟩ := (hs.weakRefs.mem id).mp hid
      ⟨o, ho⟩).symm
  · exact (hs.storage.filterMap_currentIds fun id hid =>
      let ⟨o, ho, _⟩ := (hs.ephemerons.mem id).mp hid
      ⟨o, ho⟩).symm
  · show h.internTable = _
    rw [forwardInternTable, List.filterMap_congr (g := some)]
    · exact List.filterMap_some.symm
    · intro entry hentry
      obtain ⟨o, ho, -⟩ := hs.interns.listed hentry
      rw [hs.storage.forwardBy_currentIds_of_current ⟨o, ho⟩]
      rfl

end Finalized

end Heap

/-! ## The atomic compaction of the shadow -/

namespace IncrementalCompaction

open Heap

/-- `state` is the compaction of the shadow objects with a base below `bound`. -/
structure ExpectedUpTo (c : IncrementalCompaction) (bound : ℕ) (state : ExpectedCompaction) :
    Prop where
  forwardingLength : state.forwarding.length = c.shadowObjects.length
  objectsLength : state.objects.length = c.shadowObjects.length
  generationsLength : state.generations.length = c.shadowGenerations.length
  next : state.destinationSlot = slide c.shadowWidth bound
  forwarding : ∀ slot id, state.forwarding.getD slot none = some id ↔
    ∃ e ∈ c.plan, e.sourceSlot < bound ∧ e.sourceSlot = slot ∧ e.destinationId = id
  objects : ∀ slot o, state.objects.getD slot none = some o ↔ ∃ e ∈ c.plan,
    e.sourceSlot < bound ∧ e.destinationSlot = slot ∧
      ∃ shadow, c.shadowObjects.getD e.sourceSlot none = some shadow ∧ o = shadow.promote
  reached : ∀ e ∈ c.plan, e.sourceSlot < bound →
    state.generations.getD e.destinationSlot 0 = e.destinationId.generation
  kept : ∀ slot, (∀ e ∈ c.plan, e.sourceSlot < bound → e.destinationSlot ≠ slot) →
    state.generations.getD slot 0 = c.shadowGenerations.getD slot 0

section Expected

variable {c : IncrementalCompaction} {h : Heap} {bound : ℕ} {state : ExpectedCompaction}
  {e : IncrementalCompactionEntry}

/-- A slot without a shadow object. -/
theorem ExpectedUpTo.skip (hx : c.ExpectedUpTo bound state) (hl : c.Layout h)
    (hnone : c.shadowObjects.getD bound none = none) : c.ExpectedUpTo (bound + 1) state := by
  have hwidth : c.shadowWidth bound = 0 := by
    rw [shadowWidth, hnone]
    rfl
  have hbelow : ∀ e ∈ c.plan, e.sourceSlot < bound + 1 ↔ e.sourceSlot < bound := by
    intro e he
    have hne : e.sourceSlot ≠ bound := by
      rintro rfl
      exact hl.shadowWidth_ne_zero he hwidth
    omega
  refine ⟨hx.forwardingLength, hx.objectsLength, hx.generationsLength, ?_, ?_, ?_, ?_, ?_⟩
  · rw [hx.next, slide_succ, hwidth, Nat.add_zero]
  · intro slot id
    rw [hx.forwarding]
    exact exists_congr fun e => and_congr_right fun he => and_congr_left' (hbelow e he).symm
  · intro slot o
    rw [hx.objects]
    exact exists_congr fun e => and_congr_right fun he => and_congr_left' (hbelow e he).symm
  · exact fun e he hlt => hx.reached e he ((hbelow e he).mp hlt)
  · exact fun slot hslot => hx.kept slot fun e he hlt => hslot e he ((hbelow e he).mpr hlt)

/-- Moving the shadow object of `e` to the cursor. -/
theorem ExpectedUpTo.place (hx : c.ExpectedUpTo e.sourceSlot state) (hl : c.Layout h)
    (hsize : h.objects.length ≤ slotNumbers) (he : e ∈ c.plan) {shadow : Object}
    (hshadow : c.shadowObjects.getD e.sourceSlot none = some shadow) :
    c.ExpectedUpTo (e.sourceSlot + 1)
      (state.place e.sourceSlot shadow e.destinationId.generation) := by
  have hp := hl.planned e he
  have hinside := hl.sourceSlot_add_le he
  have hle := hl.destinationSlot_le he
  have hpos := hl.width_pos he
  have hnext : state.destinationSlot = e.destinationSlot := hx.next.trans hp.slides.symm
  have hshadowLength := hl.shadowLength
  have hgenerationsLength := hl.generationsLength
  have hid : makeObjectId state.destinationSlot e.destinationId.generation = e.destinationId := by
    rw [makeObjectId_of_lt _ (by omega), hnext, ← hp.destination]
  have hbelow : ∀ e' ∈ c.plan, e'.sourceSlot < e.sourceSlot + 1 ↔
      e'.sourceSlot < e.sourceSlot ∨ e' = e := by
    intro e' he'
    constructor
    · intro hlt
      by_cases heq : e'.sourceSlot = e.sourceSlot
      · exact .inr (hl.eq_of_sourceSlot he' he heq)
      · exact .inl (by omega)
    · rintro (hlt | rfl)
      · omega
      · omega
  have hfresh : ∀ e' ∈ c.plan, e'.sourceSlot < e.sourceSlot →
      e'.destinationSlot ≠ e.destinationSlot := by
    intro e' he' hlt heq
    rw [hl.eq_of_destinationSlot he' he heq] at hlt
    exact absurd hlt (Nat.lt_irrefl _)
  have hlengthF := hx.forwardingLength
  have hlengthO := hx.objectsLength
  have hlengthG := hx.generationsLength
  have hforwarding : ∀ slot, (state.place e.sourceSlot shadow
      e.destinationId.generation).forwarding.getD slot none =
        if slot = e.sourceSlot then some e.destinationId else state.forwarding.getD slot none := by
    intro slot
    show (state.forwarding.set e.sourceSlot (some (makeObjectId _ _))).getD slot none = _
    rw [hid, getD_set]
    by_cases hslot : slot = e.sourceSlot
    · rw [if_pos hslot, if_pos ⟨hslot.symm, by omega⟩]
    · rw [if_neg hslot, if_neg fun hand => hslot hand.1.symm]
  have hobjects : ∀ slot, (state.place e.sourceSlot shadow
      e.destinationId.generation).objects.getD slot none =
        if slot = e.destinationSlot then some shadow.promote
        else state.objects.getD slot none := by
    intro slot
    show (state.objects.set state.destinationSlot _).getD slot none = _
    rw [hnext, getD_set]
    by_cases hslot : slot = e.destinationSlot
    · rw [if_pos hslot, if_pos ⟨hslot.symm, by omega⟩]
    · rw [if_neg hslot, if_neg fun hand => hslot hand.1.symm]
  have hgenerations : ∀ slot, (state.place e.sourceSlot shadow
      e.destinationId.generation).generations.getD slot 0 =
        if slot = e.destinationSlot then e.destinationId.generation
        else state.generations.getD slot 0 := by
    intro slot
    show (state.generations.set state.destinationSlot _).getD slot 0 = _
    rw [hnext, getD_set]
    by_cases hslot : slot = e.destinationSlot
    · rw [if_pos hslot, if_pos ⟨hslot.symm, by omega⟩]
    · rw [if_neg hslot, if_neg fun hand => hslot hand.1.symm]
  refine ⟨?_, ?_, ?_, ?_, ?_, ?_, ?_, ?_⟩
  · rw [← hlengthF]
    exact List.length_set
  · rw [← hlengthO]
    exact List.length_set
  · rw [← hlengthG]
    exact List.length_set
  · show state.destinationSlot + shadow.width = _
    rw [hx.next, slide_succ, shadowWidth, hshadow]
    rfl
  · intro slot id
    rw [hforwarding]
    constructor
    · intro hslot
      split at hslot
      · next heq =>
        cases hslot
        exact ⟨e, he, by omega, heq.symm, rfl⟩
      · obtain ⟨e', he', hlt, hrest⟩ := (hx.forwarding slot id).mp hslot
        exact ⟨e', he', by omega, hrest⟩
    · rintro ⟨e', he', hlt, rfl, rfl⟩
      rcases (hbelow e' he').mp hlt with hlt' | rfl
      · rw [if_neg (by omega)]
        exact (hx.forwarding _ _).mpr ⟨e', he', hlt', rfl, rfl⟩
      · rw [if_pos rfl]
  · intro slot o
    rw [hobjects]
    constructor
    · intro hslot
      split at hslot
      · next heq =>
        cases hslot
        exact ⟨e, he, by omega, heq.symm, shadow, hshadow, rfl⟩
      · obtain ⟨e', he', hlt, hrest⟩ := (hx.objects slot o).mp hslot
        exact ⟨e', he', by omega, hrest⟩
    · rintro ⟨e', he', hlt, rfl, shadow', hshadow', rfl⟩
      rcases (hbelow e' he').mp hlt with hlt' | rfl
      · rw [if_neg (hfresh e' he' hlt')]
        exact (hx.objects _ _).mpr ⟨e', he', hlt', rfl, shadow', hshadow', rfl⟩
      · rw [hshadow] at hshadow'
        cases hshadow'
        rw [if_pos rfl]
  · intro e' he' hlt
    rw [hgenerations]
    rcases (hbelow e' he').mp hlt with hlt' | rfl
    · rw [if_neg (hfresh e' he' hlt')]
      exact hx.reached e' he' hlt'
    · rw [if_pos rfl]
  · intro slot hslot
    rw [hgenerations, if_neg fun heq => hslot e he (by omega) heq.symm]
    exact hx.kept slot fun e' he' hlt => hslot e' he' (by omega)

/-- The atomic compaction of the shadow follows the plan. -/
theorem Layout.expectedCompaction_eq_ok (hl : c.Layout h)
    (hsize : h.objects.length ≤ slotNumbers) : ∃ state, c.expectedCompaction = .ok state ∧
      c.ExpectedUpTo c.shadowObjects.length state := by
  refine (yields_foldlM_range (P := fun bound state => c.ExpectedUpTo bound state)
    (E := fun _ => False) ?_ fun bound state hlt hx => ?_).exists_ok
  · refine ⟨List.length_replicate, List.length_replicate, rfl, rfl, ?_, ?_,
      fun _ _ hlt => absurd hlt (Nat.not_lt_zero _), fun _ _ => rfl⟩
    · intro slot id
      simp
    · intro slot o
      simp
  · unfold expectedSlot
    cases hshadow : c.shadowObjects.getD bound none with
    | none => exact hx.skip hl hshadow
    | some shadow =>
      obtain ⟨e, he, rfl⟩ := hl.covers bound shadow hshadow
      have hp := hl.planned e he
      obtain ⟨shadow', hshadow', hwidth⟩ := hp.shadow
      rw [hshadow] at hshadow'
      cases hshadow'
      have hinside := hl.sourceSlot_add_le he
      have hle := hl.destinationSlot_le he
      have hshadowLength := hl.shadowLength
      have hlength := hx.objectsLength
      have hnext : state.destinationSlot = e.destinationSlot := hx.next.trans hp.slides.symm
      have hgeneration : state.generations.getD state.destinationSlot 0 =
          c.shadowGenerations.getD e.destinationSlot 0 := by
        rw [hnext]
        refine hx.kept e.destinationSlot fun e' he' hlt heq => ?_
        rw [hl.eq_of_destinationSlot he' he heq] at hlt
        exact absurd hlt (Nat.lt_irrefl _)
      have hdestination : destinationGeneration e.sourceSlot state.destinationSlot
          (state.generations.getD state.destinationSlot 0) = .ok e.destinationId.generation := by
        rw [hgeneration, hnext]
        exact hp.generation
      simp only
      rw [if_neg (by omega), hdestination]
      exact hx.place hl hsize he hshadow

/-! ## The differential check -/

/-- The destination of a source identifier, by the atomic compaction of the shadow. -/
def expectedId (c : IncrementalCompaction) (state : ExpectedCompaction) (id : ObjectId) :
    ObjectId :=
  (c.shadowDestination state.forwarding id).getD id

theorem ExpectedUpTo.shadowDestination (hx : c.ExpectedUpTo c.shadowObjects.length state)
    (hl : c.Layout h) (he : e ∈ c.plan) :
    c.shadowDestination state.forwarding e.sourceId = some e.destinationId := by
  have hp := hl.planned e he
  obtain ⟨shadow, hshadow, -⟩ := hp.shadow
  have hslot := hl.slot_sourceId he
  have hinside := hl.sourceSlot_add_le he
  have hpos := hl.width_pos he
  have hlength := hl.shadowLength
  rw [IncrementalCompaction.shadowDestination, if_pos, hslot]
  · exact (hx.forwarding _ _).mpr ⟨e, he, by omega, rfl, rfl⟩
  · refine ⟨hp.named, ?_, ?_⟩
    · rw [hslot, hp.source]
    · rw [hslot, hshadow]
      rfl

theorem ExpectedUpTo.expectedId (hx : c.ExpectedUpTo c.shadowObjects.length state)
    (hl : c.Layout h) (he : e ∈ c.plan) : c.expectedId state e.sourceId = e.destinationId := by
  rw [IncrementalCompaction.expectedId, hx.shadowDestination hl he]
  rfl

theorem ExpectedUpTo.rewriteShadowId (hx : c.ExpectedUpTo c.shadowObjects.length state)
    (hl : c.Layout h) {id : ObjectId} (hid : ∃ e ∈ c.plan, e.sourceId = id) :
    c.rewriteShadowId state.forwarding id = .ok (c.expectedId state id) := by
  obtain ⟨e, he, rfl⟩ := hid
  rw [IncrementalCompaction.rewriteShadowId, hx.shadowDestination hl he, hx.expectedId hl he]

theorem ExpectedUpTo.rewriteShadowValue (hx : c.ExpectedUpTo c.shadowObjects.length state)
    (hl : c.Layout h) {value : Value}
    (hv : ∀ id, value = .object id → ∃ e ∈ c.plan, e.sourceId = id) :
    c.rewriteShadowValue state.forwarding value =
      .ok (value.mapObject (c.expectedId state)) := by
  cases value with
  | object id =>
    rw [IncrementalCompaction.rewriteShadowValue, hx.rewriteShadowId hl (hv id rfl)]
    rfl
  | _ => rfl

/-- The expected destination of what an identifier names is its current identifier. -/
theorem ExpectedUpTo.expectedId_sourceOf (hx : c.ExpectedUpTo c.shadowObjects.length state)
    (hl : c.Layout h) (hst : h.Storage) (hphase : h.phase = .compacting c)
    (hq : c.cursor = c.plan.length) {id : ObjectId} (hid : h.Resolves id) :
    c.expectedId state (c.sourceOf id) = h.canonical id := by
  obtain ⟨e, hn⟩ := (hl.resolves_iff hphase).mp hid
  rw [hl.sourceOf_of_names hn, hx.expectedId hl hn.planned, hl.canonical_of_names hst hphase hn,
    idOf_of_done (done_of_quiescent hq hn.planned)]

/-- A shadow object refers to the sources of the plan. -/
theorem Layout.shadow_sources (hl : c.Layout h) (hs : h.Sound)
    (hphase : h.phase = .compacting c) (he : e ∈ c.plan) {shadow : Object}
    (hshadow : c.shadowObjects.getD e.sourceSlot none = some shadow) {id : ObjectId}
    (hid : .object id ∈ shadow.payload.allFields) : ∃ e ∈ c.plan, e.sourceId = id := by
  obtain ⟨o, shadow', ho, hshadow', hm⟩ := hl.objects e he
  rw [hshadow] at hshadow'
  cases hshadow'
  rw [hm.payload_eq] at hid
  obtain ⟨id', hid', rfl⟩ := Payload.mem_allFields_rename o.shape hid
  have hv := hs.fields _ o ho _ hid'
  obtain ⟨e', hn⟩ := (hl.resolves_iff hphase).mp (valid_object.mp hv)
  exact ⟨e', hn.planned, (hl.sourceOf_of_names hn).symm⟩

/-- The atomic compaction of the shadow rewrites without an error. -/
theorem ExpectedUpTo.rewriteShadowObjects (hx : c.ExpectedUpTo c.shadowObjects.length state)
    (hl : c.Layout h) (hs : h.Sound) (hphase : h.phase = .compacting c) :
    state.objects.mapM (c.rewriteShadowObject state.forwarding) =
      .ok (state.objects.map (Option.map (Object.forwardFields (c.expectedId state)))) := by
  refine mapM_eq_ok_map fun slot hslot => ?_
  cases slot with
  | none => rfl
  | some o =>
    obtain ⟨i, hi, hget⟩ := List.getElem_of_mem hslot
    have hat : state.objects.getD i none = some o := by
      rw [List.getD_eq_getElem _ _ hi, hget]
    obtain ⟨e, he, -, -, shadow, hshadow, rfl⟩ := (hx.objects i o).mp hat
    have hfields : shadow.promote.payload.allFields.mapM
        (c.rewriteShadowValue state.forwarding) =
          .ok (shadow.payload.allFields.map (Value.mapObject (c.expectedId state))) :=
      mapM_eq_ok_map fun value hvalue => hx.rewriteShadowValue hl fun id heq =>
        hl.shadow_sources hs hphase he hshadow (heq ▸ hvalue)
    unfold rewriteShadowObject
    simp only [hfields, ok_bind]
    rfl

/-- Slot by slot the heap is what the atomic compaction gives. -/
theorem ExpectedUpTo.differentialSlotError_eq_none
    (hx : c.ExpectedUpTo c.shadowObjects.length state) (hl : c.Layout h) (hs : h.Sound)
    (hunmarked : h.Unmarked) (hphase : h.phase = .compacting c)
    (hq : c.cursor = c.plan.length) (slot : ℕ) :
    differentialSlotError slot
      ((state.objects.map (Option.map (Object.forwardFields (c.expectedId state)))).getD slot none)
      ((h.finalized h.phase).objectAt slot) = none := by
  have hexpected : (state.objects.map (Option.map (Object.forwardFields (c.expectedId state)))).getD
      slot none = (state.objects.getD slot none).map (Object.forwardFields (c.expectedId state)) :=
    getD_map_option _ _ _
  rw [hexpected, objectAt_finalized]
  cases ho : h.objectAt slot with
  | none =>
    have hnone : state.objects.getD slot none = none := by
      rw [Option.eq_none_iff_forall_ne_some]
      intro o hsome
      obtain ⟨e, he, -, rfl, -⟩ := (hx.objects slot o).mp hsome
      obtain ⟨o', -, ho', -⟩ := hl.objects e he
      rw [slotOf_of_done (done_of_quiescent hq he), ho] at ho'
      exact nomatch ho'
    rw [hnone]
    rfl
  | some o =>
    obtain ⟨e, he, rfl⟩ := hl.occupied slot o ho
    have hslot := slotOf_of_done (done_of_quiescent hq he)
    obtain ⟨o', shadow, ho', hshadow, hm⟩ := hl.objects e he
    rw [ho] at ho'
    cases ho'
    have hinside := hl.sourceSlot_add_le he
    have hpos := hl.width_pos he
    have hlength := hl.shadowLength
    have hsome : state.objects.getD (c.slotOf e) none = some shadow.promote :=
      (hx.objects _ _).mpr ⟨e, he, by omega, hslot.symm, shadow, hshadow, rfl⟩
    have hpayload : (shadow.promote.forwardFields (c.expectedId state)).payload =
        (o.forwardFields h.finalId).payload := by
      show shadow.payload.forward (fun id => some (c.expectedId state id)) =
        o.payload.forward fun id => some (h.finalId id)
      rw [hm.payload_eq, mirror, Payload.forward_forward]
      refine Payload.forward_congr fun id hid => ?_
      have hresolves := valid_object.mp (hs.fields _ o ho _ hid)
      rw [hx.expectedId_sourceOf hl hs.storage hphase hq hresolves,
        hl.finalId_eq hs.storage hphase hq hresolves]
    have hold : o.generation = .old := by
      have hisOld := hl.allOld hq _ o ho
      unfold Object.isOld at hisOld
      simpa using hisOld
    have hequal : objectsEqual (shadow.promote.forwardFields (c.expectedId state))
        (o.forwardFields h.finalId) = true := by
      unfold objectsEqual
      rw [hpayload]
      have hgeneration : (o.forwardFields h.finalId).generation = .old := hold
      have hmarked : (o.forwardFields h.finalId).marked = false := hunmarked _ o ho
      rw [hgeneration, hmarked]
      simp [Object.forwardFields, Object.promote, Object.mapReferenceFields,
        Object.forwardWeakTarget, Object.forwardEphemeron]
    rw [hsome]
    simp only [Option.map_some, differentialSlotError, hequal, if_true]

end Expected

end IncrementalCompaction

namespace Heap

section Differential

variable {h : Heap} {c : IncrementalCompaction}

/-- At the end of the phase the differential check passes. -/
theorem validateIncrementalCompactionAgainstAtomic_eq_ok (hw : h.Wf)
    (hphase : h.phase = .compacting c) (hq : c.cursor = c.plan.length) {cells : List Value}
    (hcells : ∀ value ∈ cells, h.Valid value) :
    (h.finalized h.phase).validateIncrementalCompactionAgainstAtomic
      (cells.map h.canonicalValue) = .ok () := by
  have hs := hw.toSound
  obtain ⟨hunmarked, hl⟩ := hw.compacting hphase
  obtain ⟨state, hstate, hx⟩ := hl.expectedCompaction_eq_ok hs.storage.size
  have hids : ∀ ids : List ObjectId, (∀ id ∈ ids, ∃ e ∈ c.plan, e.sourceId = id) →
      ids.mapM (c.rewriteShadowId state.forwarding) = .ok (ids.map c.currentOf) := by
    intro ids hsources
    refine mapM_eq_ok_map fun id hid => ?_
    rw [hx.rewriteShadowId hl (hsources id hid)]
    obtain ⟨e, he, rfl⟩ := hsources id hid
    rw [hx.expectedId hl he, hl.currentOf_sourceId he,
      IncrementalCompaction.idOf_of_done (IncrementalCompaction.done_of_quiescent hq he)]
  have htable : (c.shadowInternTable.mapM fun entry => do
      return { entry with canonical := ← c.rewriteShadowId state.forwarding entry.canonical }) =
        .ok (c.shadowInternTable.map fun entry =>
          { entry with canonical := c.currentOf entry.canonical }) := by
    refine mapM_eq_ok_map fun entry hentry => ?_
    have hid := hl.shadowIds entry.canonical (.inr (.inr (List.mem_map_of_mem hentry)))
    obtain ⟨e, he, heq⟩ := hid
    rw [hx.rewriteShadowId hl ⟨e, he, heq⟩, ← heq, hx.expectedId hl he,
      hl.currentOf_sourceId he,
      IncrementalCompaction.idOf_of_done (IncrementalCompaction.done_of_quiescent hq he)]
    rfl
  have hroots : ∀ values : List Value, (∀ value ∈ values, h.Valid value) →
      (values.map h.canonicalValue).mapM (fun root => do
        c.rewriteShadowValue state.forwarding
          (← (h.finalized h.phase).normalizeShadowValue c root)) =
        .ok (values.map h.canonicalValue) := by
    intro values hvalid
    have hmap := mapM_eq_ok_map (l := values.map h.canonicalValue) (g := fun value => value)
      (f := fun root => do
        c.rewriteShadowValue state.forwarding
          (← (h.finalized h.phase).normalizeShadowValue c root)) fun value' hvalue' => ?_
    · rwa [List.map_id'] at hmap
    · obtain ⟨value, hvalue, rfl⟩ := List.mem_map.mp hvalue'
      have hv : h.Valid (h.canonicalValue value) :=
        hs.storage.valid_canonical (hvalid value hvalue)
      have hagain := hl.canonical_later hl hs.storage hs.storage hphase hphase rfl
        (Nat.le_refl _) (hvalid value hvalue)
      show (h.finalized h.phase).normalizeShadowValue c (h.canonicalValue value) >>= _ = _
      rw [hl.normalizeShadowValue_eq_ok hphase hv, ok_bind, hx.rewriteShadowValue hl]
      · -- the destination of the source of a current identifier is itself
        generalize hcanonical : h.canonicalValue value = root at hagain hv
        cases root with
        | object id =>
          have hid : h.canonical id = id := Value.object.inj hagain
          show Except.ok (Value.object (c.expectedId state (c.sourceOf id))) = _
          rw [hx.expectedId_sourceOf hl hs.storage hphase hq, hid]
          have hv' : h.Valid (.object id) := hcanonical ▸ hv
          exact valid_object.mp hv'
        | _ => rfl
      · intro id heq
        generalize hcanonical : h.canonicalValue value = root at hv heq
        cases root with
        | object id' =>
          have hv' : h.Valid (.object id') := hcanonical ▸ hv
          obtain ⟨e, hn⟩ := (hl.resolves_iff hphase).mp (valid_object.mp hv')
          cases heq
          exact ⟨e, hn.planned, (hl.sourceOf_of_names hn).symm⟩
        | _ => exact nomatch heq
  have hforwarding : ∀ slot, state.forwarding.getD slot none = c.forwarding.getD slot none := by
    intro slot
    ext id
    rw [hx.forwarding, hl.forwarding]
    refine exists_congr fun e => and_congr_right fun he => and_congr_left' ?_
    have hinside := hl.sourceSlot_add_le he
    have hpos := hl.width_pos he
    have hlength := hl.shadowLength
    exact ⟨fun _ => IncrementalCompaction.done_of_quiescent hq he, fun _ => by omega⟩
  have hgenerations : state.generations = h.generations := by
    have hlength : state.generations.length = h.generations.length := by
      rw [hx.generationsLength, hl.generationsLength, hs.storage.lengths]
    refine ext_getD 0 hlength fun slot => ?_
    by_cases hslot : ∃ e ∈ c.plan, e.destinationSlot = slot
    · obtain ⟨e, he, rfl⟩ := hslot
      have hinside := hl.sourceSlot_add_le he
      have hpos := hl.width_pos he
      have hshadow := hl.shadowLength
      rw [hx.reached e he (by omega)]
      exact (hl.reached e he (IncrementalCompaction.done_of_quiescent hq he)).symm
    · rw [hx.kept slot fun e he _ heq => hslot ⟨e, he, heq⟩]
      exact (hl.kept slot fun e he _ heq => hslot ⟨e, he, heq⟩).symm
  have hactual : (h.finalized h.phase).traceCollectionRoots (cells.map h.canonicalValue) =
      (h.traceCollectionRoots cells).map h.canonicalValue := by
    simp only [traceCollectionRoots, finalized, mapRoots, List.map_append, List.map_map]
    rfl
  have hphase' : (h.finalized h.phase).phase = .compacting c := hphase
  have hforwardings : ((List.range state.forwarding.length).forM fun slot =>
      if state.forwarding.getD slot none = c.forwarding.getD slot none then .ok ()
      else .error (.logicError
        ("incremental compaction/STW differential forwarding mismatch at heap slot "
          ++ toString slot))) = (.ok () : Except HeapError Unit) := by
    refine forM_eq_ok.mpr fun slot _ => ?_
    rw [if_pos (hforwarding slot)]
  have hsizes : (state.objects.map
      (Option.map (Object.forwardFields (c.expectedId state)))).length =
        (h.finalized h.phase).objects.length := by
    rw [List.length_map, hx.objectsLength, hl.shadowLength]
    exact (List.length_map _).symm
  have hlengths : state.forwarding.length = c.forwarding.length := by
    rw [hx.forwardingLength, hl.shadowLength, hl.forwardingLength]
  have hweak : c.shadowWeakRefs.map c.currentOf = (h.finalized h.phase).weakRefs :=
    hl.weakRefs.symm
  have hephemerons : c.shadowEphemerons.map c.currentOf = (h.finalized h.phase).ephemerons :=
    hl.ephemerons.symm
  have hinterns : (c.shadowInternTable.map fun entry =>
      { entry with canonical := c.currentOf entry.canonical }) =
        (h.finalized h.phase).internTable := hl.internTable.symm
  have hgenerations' : state.generations = (h.finalized h.phase).generations := hgenerations
  unfold validateIncrementalCompactionAgainstAtomic
  simp only [hphase', hq, ne_eq, not_true_eq_false, if_false, hstate, ok_bind,
    hx.rewriteShadowObjects hl hs hphase, hids _ fun id hid => hl.shadowIds id (.inl hid), htable,
    hids _ fun id hid => hl.shadowIds id (.inr (.inl hid)), hactual]
  rw [hroots _ (hs.traceCollectionRoots hcells), ok_bind, if_neg (not_not_intro hlengths),
    hforwardings, ok_bind, if_neg (not_not_intro hgenerations'), if_neg (not_not_intro hsizes)]
  refine bind_eq_ok.mpr ⟨(), forM_eq_ok.mpr fun slot _ => ?_, ?_⟩
  · rw [hx.differentialSlotError_eq_none hl hs hunmarked hphase hq slot]
  · rw [if_neg (not_not_intro hweak), if_neg (not_not_intro hinterns),
      if_neg (not_not_intro hephemerons), if_neg (by simp [finalized]), if_neg (not_not_intro rfl)]
    rfl

/-- The end of the phase never throws. -/
theorem finalizeIncrementalCompaction_eq_ok (hw : h.Wf) (hphase : h.phase = .compacting c)
    (hq : c.cursor = c.plan.length) {cells : List Value}
    (hcells : ∀ value ∈ cells, h.Valid value) :
    finalizeIncrementalCompaction cells h =
        .ok (cells.map h.canonicalValue) (h.finalized .idle) ∧
      (h.finalized .idle).Wf ∧ (h.finalized .idle).AllOld := by
  have hs := hw.toSound
  obtain ⟨hunmarked, hl⟩ := hw.compacting hphase
  have hold := hl.allOld hq
  have hfinal : ∀ id, h.Resolves id → h.finalId id = h.canonical id := fun id hid =>
    hl.finalId_eq hs.storage hphase hq hid
  have hsound : ∀ phase, (h.finalized phase).Sound := fun phase => hs.finalized hold hfinal
  have hold' : ∀ phase, (h.finalized phase).AllOld := by
    intro phase slot o' ho'
    rw [objectAt_finalized, Option.map_eq_some_iff] at ho'
    obtain ⟨o, ho, rfl⟩ := ho'
    exact hold slot o ho
  have hunmarked' : (h.finalized .idle).Unmarked := by
    intro slot o' ho'
    rw [objectAt_finalized, Option.map_eq_some_iff] at ho'
    obtain ⟨o, ho, rfl⟩ := ho'
    exact hunmarked slot o ho
  have hcells' : ∀ phase, ∀ value ∈ cells.map h.canonicalValue,
      (h.finalized phase).Valid value := by
    intro phase value' hvalue'
    obtain ⟨value, hvalue, rfl⟩ := List.mem_map.mp hvalue'
    have hr : h.Relocates (h.finalized phase) h.currentIds := hs.relocates_finalized hfinal
    cases hcell : value with
    | object id =>
      have hv : h.Valid (.object id) := hcell ▸ hcells value hvalue
      have hF := forwardBy_currentIds (valid_object.mp hv)
      exact valid_object.mpr (hr.current hF).resolves
    | _ => exact valid_of_not_isObject rfl
  have hrewrite : ∀ value ∈ h.traceCollectionRoots cells,
      h.rewriteIncrementalCompactionValue true value = .ok (h.canonicalValue value) :=
    fun value hvalue => hl.finalValue_eq_ok hs.storage hphase hq
      (hs.traceCollectionRoots hcells value hvalue)
  have hobjects : h.objects.mapM h.finalRewriteObject =
      .ok (h.objects.map (Option.map (Object.forwardFields h.finalId))) := by
    refine mapM_eq_ok_map fun slot hslot => ?_
    cases slot with
    | none => rfl
    | some o =>
      obtain ⟨i, hi, hget⟩ := List.getElem_of_mem hslot
      have ho : h.objectAt i = some o := by
        rw [Heap.objectAt, List.getD_eq_getElem _ _ hi, hget]
      have hfields : o.payload.allFields.mapM (h.rewriteIncrementalCompactionValue true) =
          .ok (o.payload.allFields.map h.canonicalValue) :=
        mapM_eq_ok_map fun value hvalue => hl.finalValue_eq_ok hs.storage hphase hq
          (hs.fields i o ho value hvalue)
      unfold finalRewriteObject
      simp only [hfields, ok_bind]
      rfl
  have hquiescent : h.incrementalCompactionQuiescent = true := by
    simp [incrementalCompactionQuiescent, hphase, hq]
  refine ⟨?_, ⟨hsound .idle, hunmarked'⟩, hold' .idle⟩
  have hwp : wp (finalizeIncrementalCompaction cells)
      (fun cells' h' => cells' = cells.map h.canonicalValue ∧ h' = h.finalized .idle)
      (fun _ _ => False) h := by
    unfold finalizeIncrementalCompaction
    rw [wp_bind, wp_get]
    simp only [hquiescent, Bool.not_true, Bool.false_eq_true, if_false]
    rw [wp_bind, wp_eq_ok (rewriteRoots_eq_ok hrewrite)]
    -- the rewrite of the objects does not look at the roots
    refine wp_query_ok (a := h.objects.map (Option.map (Object.forwardFields h.finalId)))
      hobjects ?_
    rw [wp_bind, wp_modify]
    show wp _ _ _ { h.finalized h.phase with rememberedSet := h.rememberedSet }
    unfold pruneRememberedSet
    rw [wp_bind]
    refine wp_query_ok (a := []) (prunedRememberedSet_of_allOld (hold' h.phase)
      fun slot o ho value hvalue => (hsound h.phase).fields slot o ho value
        (List.mem_append_left _ hvalue)) ?_
    rw [wp_modify]
    show wp _ _ _ (h.finalized h.phase)
    refine wp_query_ok ((hsound h.phase).validateAfterCollection_eq_ok (hcells' h.phase)) ?_
    refine wp_query_ok (validateIncrementalCompactionAgainstAtomic_eq_ok hw hphase hq hcells) ?_
    rw [wp_bind, wp_modify]
    show wp _ _ _ (h.finalized .idle)
    exact wp_query_ok ((hsound .idle).validateAfterCollection_eq_ok (hcells' .idle)) ⟨rfl, rfl⟩
  unfold wp at hwp
  split at hwp
  · next hok => rw [hok, hwp.1, hwp.2]
  · exact hwp.elim

end Differential

end Heap

end LanguageRuntime.Gc
