import LanguageRuntime.Gc.CompactionTheorems

/-!
# The sweep in front of an incremental compaction

The marked objects get their destinations, the others are freed, and the side tables forget
them.
-/

namespace LanguageRuntime.Gc

open LanguageRuntime LanguageRuntime.Library

namespace Heap

/-! ## The plan -/

/-- `state` plans the move of the marked objects with a base below `bound`. -/
structure PlannedUpTo (h : Heap) (bound : ℕ) (state : CompactionPlan) : Prop where
  sourceIdsLength : state.sourceIds.length = h.objects.length
  generationsLength : state.destinationGenerations.length = h.generations.length
  next : state.destinationSlot = h.slideOf .major bound
  sources : state.plan.Pairwise (·.sourceSlot < ·.sourceSlot)
  below : ∀ e ∈ state.plan, e.sourceSlot < bound
  entries : ∀ e ∈ state.plan, ∃ o, h.objectAt e.sourceSlot = some o ∧ o.marked = true ∧
    e.width = o.width ∧ e.sourceId = h.currentId e.sourceSlot ∧
    e.destinationSlot = h.slideOf .major e.sourceSlot ∧
    e.destinationId.slot = e.destinationSlot ∧
    destinationGeneration e.sourceSlot e.destinationSlot (h.generationAt e.destinationSlot) =
      .ok e.destinationId.generation
  covers : ∀ slot o, slot < bound → h.objectAt slot = some o → o.marked = true →
    ∃ e ∈ state.plan, e.sourceSlot = slot
  sourceIds : ∀ slot id, state.sourceIds.getD slot none = some id ↔
    ∃ e ∈ state.plan, e.sourceSlot = slot ∧ e.sourceId = id
  others : ∀ slot, (∀ e ∈ state.plan, e.destinationSlot ≠ slot) →
    state.destinationGenerations.getD slot 0 = h.generationAt slot

section Plan

variable {h : Heap} {bound : ℕ} {state : CompactionPlan}

/-- A slot without a marked object. -/
theorem PlannedUpTo.skip (hp : h.PlannedUpTo bound state)
    (hnone : ∀ o, h.objectAt bound = some o → o.marked = false) :
    h.PlannedUpTo (bound + 1) state where
  sourceIdsLength := hp.sourceIdsLength
  generationsLength := hp.generationsLength
  next := by
    have hwidth : h.survivorWidth .major bound = 0 := by
      by_contra hne
      obtain ⟨o, ho, hs, -⟩ := survivorWidth_ne_zero hne
      have hmarked : o.marked = true := hs
      rw [hnone o ho] at hmarked
      exact nomatch hmarked
    rw [hp.next, slideOf, slide_succ, hwidth, Nat.add_zero]
  sources := hp.sources
  below e he := Nat.lt_succ_of_lt (hp.below e he)
  entries := hp.entries
  covers slot o hlt ho hmarked := by
    refine hp.covers slot o (Nat.lt_of_le_of_ne (Nat.le_of_lt_succ hlt) ?_) ho hmarked
    rintro rfl
    rw [hnone o ho] at hmarked
    exact nomatch hmarked
  sourceIds := hp.sourceIds
  others := hp.others

/-- Planning the move of the marked object at `bound`. -/
theorem PlannedUpTo.place (hp : h.PlannedUpTo bound state) (hst : h.Storage) {o : Object} {g : ℕ}
    (ho : h.objectAt bound = some o) (hmarked : o.marked = true)
    (hg : destinationGeneration bound state.destinationSlot
      (state.destinationGenerations.getD state.destinationSlot 0) = .ok g) :
    h.PlannedUpTo (bound + 1) (state.place (h.currentId bound) bound o g) := by
  have hbound := lt_length_of_objectAt ho
  have hsurvives : o.survives .major = true := hmarked
  have hfits := hst.slideOf_add_le ho hsurvives
  have hpos := o.width_pos
  have hnext : state.destinationSlot < h.objects.length := by
    rw [hp.next]
    omega
  have hid : makeObjectId state.destinationSlot g = ⟨state.destinationSlot, g⟩ :=
    makeObjectId_of_lt g (hnext.trans_le hst.size)
  -- nothing has been planned to move to the cursor yet
  have hfresh : ∀ e ∈ state.plan, e.destinationSlot ≠ state.destinationSlot := by
    intro e he
    obtain ⟨o', ho', hmarked', -, -, hslot, -⟩ := hp.entries e he
    have hsurvives : o'.survives .major = true := hmarked'
    rw [hslot, hp.next]
    exact (slide_lt (hp.below e he) (survivorWidth_pos ho' hsurvives)).ne
  rw [hp.others _ hfresh] at hg
  have hlength := hp.sourceIdsLength
  have hlengths := hp.generationsLength
  have hmem : ∀ e, e ∈ (state.place (h.currentId bound) bound o g).plan ↔ e ∈ state.plan ∨
      e = ⟨h.currentId bound, bound, o.width, makeObjectId state.destinationSlot g,
        state.destinationSlot⟩ := by
    intro e
    show e ∈ state.plan ++ [_] ↔ _
    rw [List.mem_append, List.mem_singleton]
  refine ⟨?_, ?_, ?_, ?_, ?_, ?_, ?_, ?_, ?_⟩
  · rw [← hlength]
    exact List.length_set
  · rw [← hlengths]
    exact List.length_set
  · show state.destinationSlot + o.width = _
    rw [hp.next, slideOf, slide_succ, survivorWidth_eq ho hsurvives]
  · show (state.plan ++ [_]).Pairwise _
    refine List.pairwise_append.mpr ⟨hp.sources, List.pairwise_singleton _ _, ?_⟩
    intro e he e' he'
    rw [List.mem_singleton.mp he']
    exact hp.below e he
  · intro e he
    rcases (hmem e).mp he with hold | rfl
    · exact Nat.lt_succ_of_lt (hp.below e hold)
    · exact Nat.lt_succ_self _
  · intro e he
    rcases (hmem e).mp he with hold | rfl
    · exact hp.entries e hold
    · exact ⟨o, ho, hmarked, rfl, rfl, hp.next, by rw [hid], by rw [hid]; exact hg⟩
  · intro slot o' hlt ho' hmarked'
    by_cases heq : slot = bound
    · exact ⟨_, (hmem _).mpr (.inr rfl), heq.symm⟩
    · obtain ⟨e, he, hslot⟩ := hp.covers slot o' (by omega) ho' hmarked'
      exact ⟨e, (hmem e).mpr (.inl he), hslot⟩
  · intro slot id
    show (state.sourceIds.set bound (some (h.currentId bound))).getD slot none = some id ↔ _
    rw [getD_set]
    by_cases hslot : bound = slot
    · rw [if_pos ⟨hslot, by omega⟩]
      constructor
      · intro heq
        cases heq
        exact ⟨_, (hmem _).mpr (.inr rfl), hslot, rfl⟩
      · rintro ⟨e, he, heq, rfl⟩
        rcases (hmem e).mp he with hold | rfl
        · have hlt := hp.below e hold
          omega
        · rfl
    · rw [if_neg fun hand => hslot hand.1, hp.sourceIds]
      constructor
      · rintro ⟨e, he, hrest⟩
        exact ⟨e, (hmem e).mpr (.inl he), hrest⟩
      · rintro ⟨e, he, heq, rfl⟩
        rcases (hmem e).mp he with hold | rfl
        · exact ⟨e, hold, heq, rfl⟩
        · exact absurd heq hslot
  · intro slot hslot
    have hne : state.destinationSlot ≠ slot := hslot _ ((hmem _).mpr (.inr rfl))
    show (state.destinationGenerations.set state.destinationSlot g).getD slot 0 = _
    rw [getD_set, if_neg fun hand => hne hand.1]
    exact hp.others slot fun e he => hslot e ((hmem e).mpr (.inl he))

/-- The marked objects are planned to slide together, unless a slot has used up its
generations. -/
theorem yields_planIncrementalCompaction (hst : h.Storage) :
    Yields h.planIncrementalCompaction (h.PlannedUpTo h.objects.length)
      fun e => e = generationExhausted ∧
        h.RunsOut fun slot => ∃ o, h.objectAt slot = some o ∧ o.countsAsLive .major = true := by
  refine yields_foldlM_range (P := fun bound state => h.PlannedUpTo bound state) ?_
    fun bound state hlt hp => ?_
  · refine ⟨List.length_replicate, rfl, rfl, List.Pairwise.nil, nofun, nofun,
      fun _ _ hlt => absurd hlt (Nat.not_lt_zero _), ?_, fun _ _ => rfl⟩
    intro slot id
    simp
  · unfold planSlot
    split
    · next hnone => exact hp.skip fun o ho => nomatch hnone.symm.trans ho
    · next o ho =>
      by_cases hmarked : o.marked = true
      · have hsurvives : o.survives .major = true := hmarked
        have hfits := hst.slideOf_add_le ho hsurvives
        rw [if_neg (by simp [hmarked]), if_neg (by rw [hp.next]; omega), yields_map, yields_iff]
        refine ⟨fun g hg => hp.place hst ho hmarked hg, fun e he => ?_⟩
        obtain ⟨rfl, hmoves, hmax⟩ := destinationGeneration_error he
        rw [hp.next] at hmoves
        refine ⟨rfl, runsOut_of_survivor ho hsurvives hmoves ?_⟩
        rw [← hmax, hp.others, hp.next]
        intro e' he'
        obtain ⟨o', ho', hmarked', -, -, hslot, -⟩ := hp.entries e' he'
        have hsurvives : o'.survives .major = true := hmarked'
        rw [hslot, hp.next]
        exact (slide_lt (hp.below e' he') (survivorWidth_pos ho' hsurvives)).ne
      · rw [if_pos (by simpa using hmarked)]
        refine hp.skip fun o' ho' => ?_
        rw [ho] at ho'
        cases ho'
        simpa using hmarked

end Plan

/-! ## Sweeping the registries -/

/-- The identifier itself, if its object is marked. -/
def liveId (h : Heap) (id : ObjectId) : Option ObjectId :=
  match h.resolve id with
  | .ok (_, o) => if o.marked then some id else none
  | .error _ => none

/-- `h'` is `h` with the marked objects that `ids` name changed by `f`. -/
structure Swept (h h' : Heap) (f : Object → Object) (ids : List ObjectId) : Prop where
  objects : ∀ slot, h'.objectAt slot = (h.objectAt slot).map fun o =>
    if o.marked = true ∧ slot ∈ ids.map ObjectId.slot then f o else o
  length : h'.objects.length = h.objects.length
  rest : h' = { h with objects := h'.objects }

section Sweep

variable {h h' : Heap} {id : ObjectId} {ids : List ObjectId} {slot : ℕ} {o : Object}
  {f : Object → Object}

theorem liveId_of_resolve (hr : h.resolve id = .ok (slot, o)) :
    h.liveId id = if o.marked = true then some id else none := by
  rw [liveId, hr]

@[simp] theorem getD_liveId (h : Heap) (id : ObjectId) : (h.liveId id).getD id = id := by
  rw [liveId]
  split
  · split <;> rfl
  · rfl

/-- An update that keeps the marks keeps the live identifiers. -/
theorem Updates.liveId_eq {R : Object → Object → Prop} (hu : Updates R h h')
    (hR : ∀ o o', R o o' → o'.marked = o.marked) : h'.liveId = h.liveId := by
  funext id
  cases hr : h.resolve id with
  | ok found =>
    obtain ⟨slot, o⟩ := found
    obtain ⟨o', hr', hro⟩ := hu.resolve hr
    rw [liveId_of_resolve hr, liveId_of_resolve hr', hR o o' hro]
  | error e =>
    cases hr' : h'.resolve id with
    | ok found =>
      obtain ⟨slot, o'⟩ := found
      obtain ⟨o, hr₁, -⟩ := hu.symm.resolve hr'
      rw [hr] at hr₁
      cases hr₁
    | error e' => rw [liveId, liveId, hr, hr']

theorem putObject_self (ho : h.objectAt slot = some o) : h.putObject slot o = h := by
  have hset : h.objects.set slot (some o) = h.objects := by
    refine ext_getD none List.length_set fun slot' => ?_
    rw [getD_set]
    split
    · next hand =>
      rw [← hand.1]
      exact ho.symm
    · rfl
  rw [putObject, hset]

theorem updates_putObject {R : Object → Object → Prop} (ho : h.objectAt slot = some o)
    (hrefl : ∀ o', R o' o') {o' : Object} (hR : R o o') : Updates R h (h.putObject slot o') where
  objects slot' := by
    have hlt := lt_length_of_objectAt ho
    have hat : (h.putObject slot o').objectAt slot' =
        if slot = slot' ∧ slot < h.objects.length then some o' else h.objects.getD slot' none :=
      getD_set _ _ _ _ _
    rw [hat]
    split
    · next hand =>
      rw [← hand.1, ho]
      exact .some hR
    · show Option.Rel R (h.objectAt slot') (h.objectAt slot')
      cases h.objectAt slot' with
      | none => exact .none
      | some o₁ => exact .some (hrefl o₁)
  length := List.length_set
  generations := rfl
  forwarded := rfl

theorem lookup_putObject_of_ne {o' : Object} (hne : id.slot ≠ slot)
    (ho : h.lookup id = some o) : (h.putObject slot o').lookup id = some o := by
  obtain ⟨hnamed, hgeneration, hobject⟩ := lookup_eq_some.mp ho
  have hat : (h.putObject slot o').objectAt id.slot =
      if slot = id.slot ∧ slot < h.objects.length then some o' else h.objects.getD id.slot none :=
    getD_set _ _ _ _ _
  refine lookup_eq_some.mpr ⟨hnamed, hgeneration, ?_⟩
  rw [hat, if_neg fun hand => hne hand.1.symm]
  exact hobject

theorem Swept.nil (h : Heap) (f : Object → Object) : h.Swept h f [] where
  objects slot := by
    cases h.objectAt slot with
    | none => rfl
    | some o => simp
  length := rfl
  rest := rfl

/-- An unmarked owner is left alone. -/
theorem Swept.skip (hs : h.Swept h' f ids) (ho : h.lookup id = some o)
    (hmarked : o.marked = false) : h.Swept h' f (id :: ids) where
  objects slot := by
    rw [hs.objects]
    cases ho' : h.objectAt slot with
    | none => rfl
    | some o' =>
      by_cases heq : slot = id.slot
      · subst heq
        rw [objectAt_of_lookup ho] at ho'
        cases ho'
        simp [hmarked]
      · simp [heq]
  length := hs.length
  rest := hs.rest

/-- A marked owner is changed, and then the rest. -/
theorem Swept.cons (ho : h.lookup id = some o) (hmarked : o.marked = true)
    (hfresh : id.slot ∉ ids.map ObjectId.slot)
    (hs : (h.putObject id.slot (f o)).Swept h' f ids) : h.Swept h' f (id :: ids) where
  objects slot := by
    have hobject := objectAt_of_lookup ho
    have hlt := lt_length_of_objectAt hobject
    have hat : (h.putObject id.slot (f o)).objectAt slot =
        if id.slot = slot ∧ id.slot < h.objects.length then some (f o)
        else h.objects.getD slot none := getD_set _ _ _ _ _
    rw [hs.objects, hat]
    by_cases heq : id.slot = slot
    · subst heq
      rw [if_pos ⟨rfl, hlt⟩, hobject, Option.map_some, Option.map_some, if_neg, if_pos]
      · exact ⟨hmarked, List.mem_cons_self⟩
      · exact fun hand => hfresh hand.2
    · rw [if_neg fun hand => heq hand.1]
      show (h.objectAt slot).map _ = (h.objectAt slot).map _
      congr 1
      funext o'
      simp [Ne.symm heq]
  length := hs.length.trans List.length_set
  rest := by
    rw [hs.rest]
    rfl

/-- Clearing a dead target forwards the targets, if the live ones keep their identifiers. -/
theorem forwardWeakTarget_liveId {target : ObjectId} (hp : o.payload = .weakRef (.object target)) :
    o.forwardWeakTarget h.liveId =
      if (h.liveId target).isSome = true then o else o.forwardWeakTarget fun _ => none := by
  cases hlive : h.liveId target with
  | none =>
    rw [Option.isSome_none, if_neg Bool.false_ne_true]
    refine Object.ext_payload rfl rfl ?_ rfl
    show o.payload.forwardWeakTarget _ = o.payload.forwardWeakTarget _
    rw [hp]
    simp [Payload.forwardWeakTarget, hlive]
  | some id =>
    have hid : id = target := by
      have hgetD := getD_liveId h target
      rwa [hlive] at hgetD
    rw [Option.isSome_some, if_pos rfl]
    refine Object.ext_payload rfl rfl ?_ rfl
    show o.payload.forwardWeakTarget _ = o.payload
    rw [hp]
    simp [Payload.forwardWeakTarget, hlive, hid]

theorem forwardEphemeron_liveId {key : ObjectId} {value : Value} {valueIsRef : Bool}
    (hp : o.payload = .ephemeron (.object key) value valueIsRef) :
    o.forwardEphemeron h.liveId =
      if (h.liveId key).isSome = true then o else o.forwardEphemeron fun _ => none := by
  cases hlive : h.liveId key with
  | none =>
    rw [Option.isSome_none, if_neg Bool.false_ne_true]
    refine Object.ext_payload rfl rfl ?_ rfl
    show o.payload.forwardEphemeron h.liveId = o.payload.forwardEphemeron fun _ => none
    rw [hp]
    simp [Payload.forwardEphemeron, hlive]
  | some id =>
    have hid : id = key := by
      have hgetD := getD_liveId h key
      rwa [hlive] at hgetD
    have hvalue : (value.mapObject fun id => id) = value := by
      cases value <;> rfl
    rw [Option.isSome_some, if_pos rfl]
    refine Object.ext_payload rfl rfl ?_ rfl
    show o.payload.forwardEphemeron _ = o.payload
    rw [hp]
    simp [Payload.forwardEphemeron, hlive, hid, hvalue]

/-- The marked weak references stay registered, their dead targets cleared. -/
theorem wp_sweepWeakRefs (hnodup : (ids.map ObjectId.slot).Nodup)
    (hids : ∀ id ∈ ids, ∃ o target, h.lookup id = some o ∧ o.payload = .weakRef target ∧
      h.Valid target) :
    wp (sweepWeakRefs ids)
      (fun kept h' => kept = ids.filter (fun id => (h.liveId id).isSome) ∧
        h.Swept h' (Object.forwardWeakTarget h.liveId) ids)
      (fun _ _ => False) h := by
  induction ids generalizing h with
  | nil => exact ⟨rfl, .nil h _⟩
  | cons id ids ih =>
    obtain ⟨o, target, ho, hp, hv⟩ := hids id List.mem_cons_self
    obtain ⟨hfresh, hnodup'⟩ := List.nodup_cons.mp hnodup
    have hr := resolve_of_lookup ho
    have hlive := liveId_of_resolve hr
    unfold sweepWeakRefs
    refine wp_query_ok hr ?_
    by_cases hmarked : o.marked = true
    · rw [if_pos hmarked] at hlive
      -- the rest, after the owner has been changed
      have hu : Updates (fun a b => b.marked = a.marked) h
          (h.putObject id.slot (o.forwardWeakTarget h.liveId)) :=
        updates_putObject (R := fun a b => b.marked = a.marked) (objectAt_of_lookup ho)
          (fun _ => rfl) rfl
      have hsame := hu.liveId_eq fun _ _ heq => heq
      have hrest : wp (sweepWeakRefs ids)
          (fun kept h' => id :: kept = (id :: ids).filter (fun id => (h.liveId id).isSome) ∧
            h.Swept h' (Object.forwardWeakTarget h.liveId) (id :: ids))
          (fun _ _ => False) (h.putObject id.slot (o.forwardWeakTarget h.liveId)) := by
        refine wp_mono (ih hnodup' fun id' hid' => ?_) (fun kept h' hpost => ?_) fun _ _ he => he
        · obtain ⟨o', target', ho', hp', hv'⟩ := hids id' (List.mem_cons_of_mem _ hid')
          have hne : id'.slot ≠ id.slot := fun heq => hfresh (heq ▸ List.mem_map_of_mem hid')
          exact ⟨o', target', lookup_putObject_of_ne hne ho', hp', hu.valid hv'⟩
        · rw [hsame] at hpost
          refine ⟨?_, .cons ho hmarked hfresh hpost.2⟩
          rw [List.filter_cons, hlive, hpost.1]
          rfl
      simp only [hmarked, Bool.not_true, Bool.false_eq_true, if_false, hp]
      cases htarget : target with
      | object t =>
        obtain ⟨slot', o', hr'⟩ := valid_object.mp (htarget ▸ hv)
        have hlive' := liveId_of_resolve hr'
        have hforward := forwardWeakTarget_liveId (h := h) (htarget ▸ hp)
        refine wp_query_ok hr' ?_
        by_cases hmarked' : o'.marked = true
        · rw [if_pos hmarked'] at hlive'
          rw [hlive'] at hforward
          rw [hforward, Option.isSome_some, if_pos rfl,
            putObject_self (objectAt_of_lookup ho)] at hrest
          simp only [hmarked', Bool.not_true, Bool.false_eq_true, if_false, wp_bind]
          exact hrest
        · rw [if_neg hmarked'] at hlive'
          rw [hlive'] at hforward
          rw [hforward, Option.isSome_none, if_neg Bool.false_ne_true] at hrest
          simp only [hmarked', Bool.not_false, if_true, wp_bind, wp_modify]
          exact hrest
      | _ =>
        have hforward : o.forwardWeakTarget h.liveId = o := by
          refine Object.ext_payload rfl rfl ?_ rfl
          show o.payload.forwardWeakTarget _ = o.payload
          rw [hp, htarget]
          rfl
        rw [hforward, putObject_self (objectAt_of_lookup ho)] at hrest
        simp only [wp_bind]
        exact hrest
    · rw [if_neg hmarked] at hlive
      simp only [hmarked, Bool.not_false, if_true]
      refine wp_mono (ih hnodup' fun id' hid' => hids id' (List.mem_cons_of_mem _ hid'))
        (fun kept h' hpost => ?_) fun _ _ he => he
      refine ⟨?_, hpost.2.skip ho (by simpa using hmarked)⟩
      rw [List.filter_cons, hlive, hpost.1]
      rfl

/-- The marked ephemerons stay registered, those with dead keys cleared. -/
theorem wp_sweepEphemerons (hnodup : (ids.map ObjectId.slot).Nodup)
    (hids : ∀ id ∈ ids, ∃ o key value valueIsRef, h.lookup id = some o ∧
      o.payload = .ephemeron key value valueIsRef ∧ h.Valid key) :
    wp (sweepEphemerons ids)
      (fun kept h' => kept = ids.filter (fun id => (h.liveId id).isSome) ∧
        h.Swept h' (Object.forwardEphemeron h.liveId) ids)
      (fun _ _ => False) h := by
  induction ids generalizing h with
  | nil => exact ⟨rfl, .nil h _⟩
  | cons id ids ih =>
    obtain ⟨o, key, value, valueIsRef, ho, hp, hv⟩ := hids id List.mem_cons_self
    obtain ⟨hfresh, hnodup'⟩ := List.nodup_cons.mp hnodup
    have hr := resolve_of_lookup ho
    have hlive := liveId_of_resolve hr
    unfold sweepEphemerons
    refine wp_query_ok hr ?_
    by_cases hmarked : o.marked = true
    · rw [if_pos hmarked] at hlive
      -- the rest, after the owner has been changed
      have hu : Updates (fun a b => b.marked = a.marked) h
          (h.putObject id.slot (o.forwardEphemeron h.liveId)) :=
        updates_putObject (R := fun a b => b.marked = a.marked) (objectAt_of_lookup ho)
          (fun _ => rfl) rfl
      have hsame := hu.liveId_eq fun _ _ heq => heq
      have hrest : wp (sweepEphemerons ids)
          (fun kept h' => id :: kept = (id :: ids).filter (fun id => (h.liveId id).isSome) ∧
            h.Swept h' (Object.forwardEphemeron h.liveId) (id :: ids))
          (fun _ _ => False) (h.putObject id.slot (o.forwardEphemeron h.liveId)) := by
        refine wp_mono (ih hnodup' fun id' hid' => ?_) (fun kept h' hpost => ?_) fun _ _ he => he
        · obtain ⟨o', key', value', valueIsRef', ho', hp', hv'⟩ := hids id' (List.mem_cons_of_mem _ hid')
          have hne : id'.slot ≠ id.slot := fun heq => hfresh (heq ▸ List.mem_map_of_mem hid')
          exact ⟨o', key', value', valueIsRef', lookup_putObject_of_ne hne ho', hp', hu.valid hv'⟩
        · rw [hsame] at hpost
          refine ⟨?_, .cons ho hmarked hfresh hpost.2⟩
          rw [List.filter_cons, hlive, hpost.1]
          rfl
      simp only [hmarked, Bool.not_true, Bool.false_eq_true, if_false, hp]
      cases hkey : key with
      | object t =>
        obtain ⟨slot', o', hr'⟩ := valid_object.mp (hkey ▸ hv)
        have hlive' := liveId_of_resolve hr'
        have hforward := forwardEphemeron_liveId (h := h) (hkey ▸ hp)
        refine wp_query_ok hr' ?_
        by_cases hmarked' : o'.marked = true
        · rw [if_pos hmarked'] at hlive'
          rw [hlive'] at hforward
          rw [hforward, Option.isSome_some, if_pos rfl,
            putObject_self (objectAt_of_lookup ho)] at hrest
          simp only [hmarked', Bool.not_true, Bool.false_eq_true, if_false, wp_bind]
          exact hrest
        · rw [if_neg hmarked'] at hlive'
          rw [hlive'] at hforward
          rw [hforward, Option.isSome_none, if_neg Bool.false_ne_true] at hrest
          simp only [hmarked', Bool.not_false, if_true, wp_bind, wp_modify]
          exact hrest
      | _ =>
        have hforward : o.forwardEphemeron h.liveId = o := by
          refine Object.ext_payload rfl rfl ?_ rfl
          show o.payload.forwardEphemeron _ = o.payload
          rw [hp, hkey]
          rfl
        rw [hforward, putObject_self (objectAt_of_lookup ho)] at hrest
        simp only [wp_bind]
        exact hrest
    · rw [if_neg hmarked] at hlive
      simp only [hmarked, Bool.not_false, if_true]
      refine wp_mono (ih hnodup' fun id' hid' => hids id' (List.mem_cons_of_mem _ hid'))
        (fun kept h' hpost => ?_) fun _ _ he => he
      refine ⟨?_, hpost.2.skip ho (by simpa using hmarked)⟩
      rw [List.filter_cons, hlive, hpost.1]
      rfl

end Sweep

/-- The marked entries of a side table. -/
theorem markedEntries_eq_ok {h : Heap} {α : Type} {name : α → ObjectId} {entries : List α}
    (hentries : ∀ entry ∈ entries, h.Resolves (name entry)) :
    h.markedEntries name entries =
      .ok (entries.filter fun entry => (h.liveId (name entry)).isSome) := by
  induction entries with
  | nil => rfl
  | cons entry entries ih =>
    obtain ⟨slot, o, hr⟩ := hentries entry List.mem_cons_self
    have hlive := liveId_of_resolve hr
    have hrest := ih fun e he => hentries e (List.mem_cons_of_mem _ he)
    rw [List.filter_cons, hlive]
    simp only [markedEntries, hr, ok_bind, hrest]
    cases hmarked : o.marked <;> rfl

/-! ## The prepared heap -/

/-- A live object with its mark removed, and what has died in its weak fields cleared. -/
def keepMarked (h : Heap) (o : Object) : Option Object :=
  if o.marked then some { o.forward h.liveId with marked := false } else none

/-- The heap at the start of the phase. -/
def swept (h : Heap) : Heap :=
  { h with
    objects := h.objects.map fun slot => slot.bind h.keepMarked
    weakRefs := h.weakRefs.filter fun id => (h.liveId id).isSome
    internTable := h.internTable.filter fun entry => (h.liveId entry.canonical).isSome
    ephemerons := h.ephemerons.filter fun id => (h.liveId id).isSome
    rememberedSet := h.rememberedSet.filter fun id => (h.liveId id).isSome }

/-- The tables at the start of the phase. -/
def preparedTables (h : Heap) (planned : CompactionPlan) : IncrementalCompaction where
  plan := planned.plan
  cursor := 0
  forwarding := List.replicate h.swept.objects.length none
  sourceIds := planned.sourceIds
  shadowObjects := h.swept.objects
  shadowGenerations := h.generations
  shadowWeakRefs := h.swept.weakRefs
  shadowInternTable := h.swept.internTable
  shadowEphemerons := h.swept.ephemerons

def prepared (h : Heap) (planned : CompactionPlan) : Heap :=
  { h.swept with phase := .compacting (h.preparedTables planned) }

section Prepared

variable {h : Heap} {planned : CompactionPlan} {slot : ℕ} {o o' : Object} {id : ObjectId}
  {roots : List Value}

theorem objectAt_swept (h : Heap) (slot : ℕ) :
    h.swept.objectAt slot = (h.objectAt slot).bind h.keepMarked := by
  show (h.objects.map _).getD slot none = _
  have hget : h.objectAt slot = h.objects[slot]?.getD none := List.getD_eq_getElem?_getD
  rw [hget, List.getD_eq_getElem?_getD, List.getElem?_map]
  cases h.objects[slot]? <;> rfl

theorem objectAt_swept_eq_some : h.swept.objectAt slot = some o' ↔
    ∃ o, h.objectAt slot = some o ∧ o.marked = true ∧
      o' = { o.forward h.liveId with marked := false } := by
  rw [objectAt_swept, Option.bind_eq_some_iff]
  refine exists_congr fun o => and_congr_right fun _ => ?_
  rw [keepMarked]
  split
  · next hmarked =>
    constructor
    · intro heq
      exact ⟨hmarked, (Option.some.inj heq).symm⟩
    · intro hand
      rw [hand.2]
  · next hmarked =>
    constructor
    · intro heq
      cases heq
    · intro hand
      exact absurd hand.1 hmarked

theorem length_swept (h : Heap) : h.swept.objects.length = h.objects.length := List.length_map _

theorem mapReferenceFields_liveId (h : Heap) (o : Object) :
    (o.mapReferenceFields fun id => (h.liveId id).getD id) = o := by
  have hid : (fun id => (h.liveId id).getD id) = fun id => id := funext fun id => getD_liveId h id
  refine Object.ext_payload rfl rfl ?_ rfl
  show o.payload.mapReferenceFields _ = o.payload
  rw [hid, Payload.mapReferenceFields_id]

/-- The slots of a registry are those of its objects. -/
theorem IsRegistry.mem_slots {kind : ObjectKind} {registry : List ObjectId}
    (hreg : h.IsRegistry kind registry) (hst : h.Storage) (ho : h.objectAt slot = some o)
    (hk : o.payload.kind = kind) : slot ∈ registry.map ObjectId.slot := by
  refine List.mem_map.mpr ⟨h.currentId slot, (hreg.mem _).mpr
    ⟨o, hst.lookup_currentId ho, hk⟩, ?_⟩
  rw [hst.currentId_eq ho]

theorem Swept.updates (hswept : h.Swept h' f ids) (hf : ∀ o, (f o).marked = o.marked) :
    Updates (fun a b => b.marked = a.marked) h h' where
  objects slot := by
    rw [hswept.objects]
    cases h.objectAt slot with
    | none => exact .none
    | some o =>
      refine .some ?_
      dsimp only
      split
      · exact hf o
      · rfl
  length := hswept.length
  generations := by rw [hswept.rest]
  forwarded := by
    funext id
    rw [forwardedId, hswept.rest]
    rfl

/-- An object the pass does not change. -/
theorem Swept.lookup (hswept : h.Swept h' f ids) (ho : h.lookup id = some o) (hf : f o = o) :
    h'.lookup id = some o := by
  obtain ⟨hnamed, hgeneration, hobject⟩ := lookup_eq_some.mp ho
  refine lookup_eq_some.mpr ⟨hnamed, ?_, ?_⟩
  · rw [generationAt, hswept.rest]
    exact hgeneration
  · rw [hswept.objects, hobject, Option.map_some, hf, ite_self]

/-- The two sweeps of the registries, and the removal of the unmarked objects. -/
theorem Swept.objects_swept (hs : h.Sound) {h₁ h₂ h₃ : Heap}
    (hweak : h.Swept h₁ (Object.forwardWeakTarget h.liveId) h.weakRefs)
    (hsame : h₂.objects = h₁.objects)
    (hephemerons : h₂.Swept h₃ (Object.forwardEphemeron h.liveId) h.ephemerons) :
    h₃.sweepObjects.objects = h.swept.objects := by
  have hlength : h₃.objects.length = h.objects.length := by
    rw [hephemerons.length, hsame, hweak.length]
  refine ext_getD none (by
    rw [length_swept, ← hlength]
    exact List.length_map _) fun slot => ?_
  have hat : h₃.sweepObjects.objectAt slot = (h₃.objectAt slot).bind fun o =>
      if o.marked then some { o with marked := false } else none :=
    getD_bind_option _ _ _
  have hat₂ : h₂.objectAt slot = h₁.objectAt slot := by
    rw [Heap.objectAt, hsame]
    rfl
  show h₃.sweepObjects.objectAt slot = h.swept.objectAt slot
  rw [hat, hephemerons.objects, hat₂, hweak.objects, objectAt_swept]
  cases ho : h.objectAt slot with
  | none => rfl
  | some o =>
    simp only [Option.map_some, Option.bind_some, keepMarked]
    by_cases hmarked : o.marked = true
    · -- only weak references and ephemerons change
      have hfields : o.forward h.liveId =
          (o.forwardWeakTarget h.liveId).forwardEphemeron h.liveId := by
        rw [Object.forward, mapReferenceFields_liveId]
      have hweak' : (if o.marked = true ∧ slot ∈ h.weakRefs.map ObjectId.slot then
          o.forwardWeakTarget h.liveId else o) = o.forwardWeakTarget h.liveId := by
        by_cases hmem : slot ∈ h.weakRefs.map ObjectId.slot
        · rw [if_pos ⟨hmarked, hmem⟩]
        · rw [if_neg fun hand => hmem hand.2, Object.forwardWeakTarget_of_kind]
          intro hk
          exact hmem (hs.weakRefs.mem_slots hs.storage ho hk)
      have hmarked' : (o.forwardWeakTarget h.liveId).marked = true := hmarked
      have hkind : (o.forwardWeakTarget h.liveId).payload.kind = o.payload.kind :=
        Payload.kind_forwardWeakTarget _ _
      have hswept : (if (o.forwardWeakTarget h.liveId).marked = true ∧
          slot ∈ h.ephemerons.map ObjectId.slot then
            (o.forwardWeakTarget h.liveId).forwardEphemeron h.liveId
          else o.forwardWeakTarget h.liveId) = o.forward h.liveId := by
        by_cases hmem : slot ∈ h.ephemerons.map ObjectId.slot
        · rw [if_pos ⟨hmarked', hmem⟩, hfields]
        · rw [if_neg fun hand => hmem hand.2, hfields, Object.forwardEphemeron_of_kind]
          intro hk
          exact hmem (hs.ephemerons.mem_slots hs.storage ho (hkind.symm.trans hk))
      rw [hweak', hswept]
      rfl
    · have hnot : (if o.marked = true ∧ slot ∈ h.weakRefs.map ObjectId.slot then
          o.forwardWeakTarget h.liveId else o) = o := if_neg fun hand => hmarked hand.1
      have hnot' : (if o.marked = true ∧ slot ∈ h.ephemerons.map ObjectId.slot then
          o.forwardEphemeron h.liveId else o) = o := if_neg fun hand => hmarked hand.1
      rw [hnot, hnot', if_neg hmarked, if_neg hmarked]

/-- The loops of the sweep leave the prepared heap behind. -/
theorem wp_prepareIncrementalCompactionFromMarked (hs : h.Sound)
    (hvalid : ∀ planned, h.PlannedUpTo h.objects.length planned →
      (h.prepared planned).validateAfterCollection [] = .ok ()) :
    wp prepareIncrementalCompactionFromMarked
      (fun _ h' => ∃ planned, h.PlannedUpTo h.objects.length planned ∧ h' = h.prepared planned)
      (fun e h' => h' = h ∧ e = generationExhausted ∧
        h.RunsOut fun slot => ∃ o, h.objectAt slot = some o ∧ o.countsAsLive .major = true) h := by
  have hweakIds : ∀ id ∈ h.weakRefs, ∃ o target, h.lookup id = some o ∧
      o.payload = .weakRef target ∧ h.Valid target := by
    intro id hid
    obtain ⟨o, ho, hk⟩ := (hs.weakRefs.mem id).mp hid
    cases hp : o.payload with
    | weakRef target =>
      exact ⟨o, target, ho, hp, hs.fields id.slot o (objectAt_of_lookup ho) target
        (by simp [hp, Payload.allFields, Payload.weakFields])⟩
    | _ =>
      rw [hp] at hk
      cases hk
  have hephemeronIds : ∀ id ∈ h.ephemerons, ∃ o key value valueIsRef, h.lookup id = some o ∧
      o.payload = .ephemeron key value valueIsRef ∧ h.Valid key := by
    intro id hid
    obtain ⟨o, ho, hk⟩ := (hs.ephemerons.mem id).mp hid
    cases hp : o.payload with
    | ephemeron key value valueIsRef =>
      exact ⟨o, key, value, valueIsRef, ho, hp, hs.fields id.slot o (objectAt_of_lookup ho) key
        (by simp [hp, Payload.allFields, Payload.weakFields])⟩
    | _ =>
      rw [hp] at hk
      cases hk
  unfold prepareIncrementalCompactionFromMarked
  rw [wp_bind, wp_query]
  refine (yields_planIncrementalCompaction hs.storage).mono (fun planned hplanned => ?_)
    fun e he => ⟨rfl, he⟩
  rw [wp_bind, wp_get, wp_bind]
  refine wp_mono (wp_sweepWeakRefs (nodup_slots hs.weakRefs.ordered) hweakIds)
    (fun weakRefs h₁ hpost => ?_) fun _ _ he => he.elim
  obtain ⟨rfl, hswept₁⟩ := hpost
  have hu₁ := hswept₁.updates fun _ => rfl
  have hlive₁ : h₁.liveId = h.liveId := hu₁.liveId_eq fun _ _ heq => heq
  have hphase₁ : h₁.phase = h.phase := by rw [hswept₁.rest]
  rw [wp_bind, wp_modify]
  -- the later passes read the marks and the tables of `h`
  have htable : ∀ h' : Heap, h'.liveId = h.liveId → (∀ id, h.Resolves id → h'.Resolves id) →
      h'.markedEntries InternEntry.canonical h.internTable =
        .ok (h.internTable.filter fun entry => (h.liveId entry.canonical).isSome) := by
    intro h' hlive hresolves
    rw [← hlive]
    refine markedEntries_eq_ok fun entry hentry => ?_
    obtain ⟨o, ho, -⟩ := hs.interns.listed hentry
    exact hresolves _ ⟨_, o, resolve_of_lookup ho⟩
  have hremembered : ∀ h' : Heap, h'.liveId = h.liveId → (∀ id, h.Resolves id → h'.Resolves id) →
      h'.markedEntries id h.rememberedSet =
        .ok (h.rememberedSet.filter fun id => (h.liveId id).isSome) := by
    intro h' hlive hresolves
    rw [← hlive]
    refine markedEntries_eq_ok fun id hid => ?_
    obtain ⟨o, ho, -⟩ := hs.remembers.old id hid
    exact hresolves _ ⟨_, o, resolve_of_lookup ho⟩
  generalize hh₂ : ({ h₁ with weakRefs := _ } : Heap) = h₂
  have hu₂ : Updates (fun a b => b.marked = a.marked) h h₂ := by
    rw [← hh₂]
    refine ⟨hu₁.objects, hu₁.length, hu₁.generations, ?_⟩
    rw [← hu₁.forwarded]
    rfl
  have hlive₂ : h₂.liveId = h.liveId := hu₂.liveId_eq fun _ _ heq => heq
  have htable₂ : h₂.internTable = h.internTable := by rw [← hh₂, hswept₁.rest]
  have hok₂ : h₂.markedEntries InternEntry.canonical h₂.internTable =
      .ok (h.internTable.filter fun entry => (h.liveId entry.canonical).isSome) := by
    rw [htable₂]
    exact htable h₂ hlive₂ fun _ hr => hu₂.resolves hr
  refine wp_query_ok hok₂ ?_
  rw [wp_bind, wp_modify, wp_bind, wp_get, wp_bind]
  generalize hh₃ : ({ h₂ with internTable := _ } : Heap) = h₃
  have hu₃ : Updates (fun a b => b.marked = a.marked) h h₃ := by
    rw [← hh₃]
    refine ⟨hu₂.objects, hu₂.length, hu₂.generations, ?_⟩
    rw [← hu₂.forwarded]
    rfl
  have hlive₃ : h₃.liveId = h.liveId := hu₃.liveId_eq fun _ _ heq => heq
  have hephemerons₃ : h₃.ephemerons = h.ephemerons := by rw [← hh₃, ← hh₂, hswept₁.rest]
  have hobjects₃ : h₃.objects = h₁.objects := by rw [← hh₃, ← hh₂]
  -- the ephemerons
  have hephemeronIds₃ : ∀ id ∈ h₃.ephemerons, ∃ o key value valueIsRef, h₃.lookup id = some o ∧
      o.payload = .ephemeron key value valueIsRef ∧ h₃.Valid key := by
    intro id hid
    obtain ⟨o, key, value, valueIsRef, ho, hp, hv⟩ := hephemeronIds id (hephemerons₃ ▸ hid)
    have hsame : o.forwardWeakTarget h.liveId = o :=
      Object.forwardWeakTarget_of_kind (by rw [hp]; intro hno; cases hno)
    have hlookup₃ : h₃.lookup id = h₁.lookup id := by rw [← hh₃, ← hh₂]; rfl
    exact ⟨o, key, value, valueIsRef, hlookup₃.trans (hswept₁.lookup ho hsame), hp, hu₃.valid hv⟩
  refine wp_mono (wp_sweepEphemerons (by
      rw [hephemerons₃]
      exact nodup_slots hs.ephemerons.ordered) hephemeronIds₃)
    (fun ephemerons h₄ hpost => ?_) fun _ _ he => he.elim
  obtain ⟨rfl, hswept₄⟩ := hpost
  rw [hlive₃] at hswept₄ ⊢
  rw [hephemerons₃] at hswept₄ ⊢
  have hu₄ := hu₃.trans (hswept₄.updates fun _ => rfl)
  rw [wp_bind, wp_modify]
  generalize hh₅ : ({ h₄ with ephemerons := _ } : Heap) = h₅
  have hu₅ : Updates (fun a b => b.marked = a.marked) h h₅ := by
    have hmarks : Updates (fun a b => b.marked = a.marked) h h₄ := by
      refine hu₄.mono fun a b hmarked => ?_
      obtain ⟨o, ha, hb⟩ := hmarked
      exact hb.trans ha
    rw [← hh₅]
    refine ⟨hmarks.objects, hmarks.length, hmarks.generations, ?_⟩
    rw [← hmarks.forwarded]
    rfl
  have hlive₅ : h₅.liveId = h.liveId := hu₅.liveId_eq fun _ _ heq => heq
  have hremembered₅ : h₅.rememberedSet = h.rememberedSet := by
    rw [← hh₅, hswept₄.rest, ← hh₃, ← hh₂, hswept₁.rest]
  have hok₅ : h₅.markedEntries id h₅.rememberedSet =
      .ok (h.rememberedSet.filter fun id => (h.liveId id).isSome) := by
    rw [hremembered₅]
    exact hremembered h₅ hlive₅ fun _ hr => hu₅.resolves hr
  refine wp_query_ok hok₅ ?_
  rw [wp_bind, wp_modify, wp_bind, wp_modify, wp_bind, wp_modify]
  have hobjects := Swept.objects_swept hs hswept₁ hobjects₃ hswept₄
  have hobjects₅ : h₅.sweepObjects.objects = h.swept.objects := by
    rw [← hobjects, ← hh₅]
    rfl
  -- nothing else has changed
  have hrest₅ : h₅ = { h with
      objects := h₅.objects
      weakRefs := h.weakRefs.filter fun id => (h.liveId id).isSome
      internTable := h.internTable.filter fun entry => (h.liveId entry.canonical).isSome
      ephemerons := h.ephemerons.filter fun id => (h.liveId id).isSome } := by
    rw [← hh₅, hswept₄.rest, ← hh₃, ← hh₂, hswept₁.rest]
  have hfinal : ∀ h', h' = h.prepared planned →
      wp (HeapM.query fun h => h.validateAfterCollection [])
        (fun _ h' => ∃ planned, h.PlannedUpTo h.objects.length planned ∧ h' = h.prepared planned)
        (fun e h' => h' = h ∧ e = generationExhausted ∧
          h.RunsOut fun slot => ∃ o, h.objectAt slot = some o ∧ o.countsAsLive .major = true)
        h' := by
    rintro h' rfl
    rw [wp_query]
    exact (hvalid planned hplanned) ▸ ⟨planned, hplanned, rfl⟩
  refine hfinal _ ?_
  have hobjects' : (h₅.objects.map fun slot =>
      slot.bind fun o => if o.marked then some { o with marked := false } else none) =
        h.swept.objects := hobjects₅
  generalize h₅.objects = objects at hrest₅ hobjects'
  subst hrest₅
  unfold prepared preparedTables
  rw [← hobjects']
  simp only [sweepObjects, swept, Heap.mk.injEq, true_and, and_true]
  exact hobjects'

end Prepared

end Heap

end LanguageRuntime.Gc
