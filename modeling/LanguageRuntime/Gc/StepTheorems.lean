import LanguageRuntime.Gc.StoreTheorems

/-!
# A step of incremental compaction

A step moves the next object of the plan to its destination and forwards the side tables. It
writes no field: the source identifier of the object keeps naming it.
-/

namespace LanguageRuntime.Gc

open LanguageRuntime LanguageRuntime.Library

namespace IncrementalCompaction

/-- The tables once the object of `e` has moved. -/
def advance (c : IncrementalCompaction) (e : IncrementalCompactionEntry) :
    IncrementalCompaction :=
  { c with
    forwarding := c.forwarding.set e.sourceSlot (some e.destinationId)
    cursor := c.cursor + 1 }

section Next

variable {c : IncrementalCompaction} {h : Heap} {e e' : IncrementalCompactionEntry}
  {id : ObjectId} {slot : ℕ} {o : Object}

theorem done_advance (hnext : c.plan[c.cursor]? = some e) :
    (c.advance e).Done e' ↔ c.Done e' ∨ e' = e := by
  show e' ∈ c.plan.take (c.cursor + 1) ↔ _
  rw [List.take_add_one, hnext, List.mem_append]
  simp [Done]

theorem mem_of_next (hnext : c.plan[c.cursor]? = some e) : e ∈ c.plan :=
  List.mem_of_getElem? hnext

/-- The objects that wait stand behind those that have moved. -/
theorem Layout.lt_of_next (hl : c.Layout h) (hnext : c.plan[c.cursor]? = some e)
    (he' : e' ∈ c.plan) (hwaits : ¬c.Done e') (hne : e' ≠ e) : e.sourceSlot < e'.sourceSlot := by
  obtain ⟨hcursor, hget⟩ := List.getElem?_eq_some_iff.mp hnext
  obtain ⟨i, hi, hi'⟩ := List.getElem_of_mem he'
  have hordered := List.pairwise_iff_getElem.mp hl.sources
  rcases Nat.lt_trichotomy i c.cursor with hlt | heq | hlt
  · refine absurd ?_ hwaits
    rw [Done, List.mem_take_iff_getElem]
    exact ⟨i, by omega, hi'⟩
  · subst heq
    exact absurd (hi'.symm.trans hget) hne
  · have hsources := hordered c.cursor i hcursor hi hlt
    rwa [hget, hi'] at hsources

theorem Layout.not_done_next (hl : c.Layout h) (hnext : c.plan[c.cursor]? = some e) :
    ¬c.Done e := by
  obtain ⟨hcursor, hget⟩ := List.getElem?_eq_some_iff.mp hnext
  intro hdone
  rw [Done, List.mem_take_iff_getElem] at hdone
  obtain ⟨i, hi, hi'⟩ := hdone
  have hsources := List.pairwise_iff_getElem.mp hl.sources i c.cursor (by omega) hcursor (by omega)
  rw [hi', hget] at hsources
  exact absurd hsources (Nat.lt_irrefl _)

/-! ## The order of the objects -/

/-- The objects stand in the order of the plan. -/
theorem Layout.slotOf_add_le (hl : c.Layout h) (he : e ∈ c.plan) (he' : e' ∈ c.plan)
    (hlt : e.sourceSlot < e'.sourceSlot) : c.slotOf e + e.width ≤ c.slotOf e' := by
  have hsources := hl.sourceSlot_add_le_sourceSlot he he' hlt
  have hdestinations := hl.destinationSlot_add_le he he' hlt
  have hle' := hl.destinationSlot_le he'
  by_cases hdone : c.Done e
  · by_cases hdone' : c.Done e'
    · rw [slotOf_of_done hdone, slotOf_of_done hdone']
      exact hdestinations
    · rw [slotOf_of_done hdone, slotOf_of_not_done hdone']
      omega
  · have hdone' : ¬c.Done e' := fun hdone' => hdone (hl.done_of_lt he hdone' hlt)
    rw [slotOf_of_not_done hdone, slotOf_of_not_done hdone']
    exact hsources

theorem Layout.slotOf_lt_iff (hl : c.Layout h) (he : e ∈ c.plan) (he' : e' ∈ c.plan) :
    c.slotOf e < c.slotOf e' ↔ e.sourceSlot < e'.sourceSlot := by
  have hpos := hl.width_pos he
  have hpos' := hl.width_pos he'
  constructor
  · intro hlt
    rcases Nat.lt_trichotomy e.sourceSlot e'.sourceSlot with hsource | hsource | hsource
    · exact hsource
    · rw [hl.eq_of_sourceSlot he he' hsource] at hlt
      exact absurd hlt (Nat.lt_irrefl _)
    · have hle := hl.slotOf_add_le he' he hsource
      omega
  · intro hsource
    have hle := hl.slotOf_add_le he he' hsource
    omega

theorem Layout.slotOf_add_width_le (hl : c.Layout h) (he : e ∈ c.plan) :
    c.slotOf e + e.width ≤ h.objects.length := by
  have hinside := hl.sourceSlot_add_le he
  have hle := hl.destinationSlot_le he
  by_cases hdone : c.Done e
  · rw [slotOf_of_done hdone]
    omega
  · rw [slotOf_of_not_done hdone]
    exact hinside

/-- An object is as wide as the plan says. -/
theorem Layout.width_eq (hl : c.Layout h) (he : e ∈ c.plan)
    (ho : h.objectAt (c.slotOf e) = some o) : o.width = e.width := by
  obtain ⟨o₁, shadow, ho₁, hshadow, hm⟩ := hl.objects e he
  obtain ⟨shadow₁, hshadow₁, hwidth⟩ := (hl.planned e he).shadow
  rw [ho] at ho₁
  cases ho₁
  rw [hshadow] at hshadow₁
  cases hshadow₁
  rw [← hwidth, hm.width]

/-- The tables decide the storage layout. -/
theorem Layout.storage (hl : c.Layout h) (hsize : h.objects.length ≤ slotNumbers)
    (hlengths : h.generations.length = h.objects.length) : h.Storage where
  size := hsize
  lengths := hlengths
  inside slot o ho := by
    obtain ⟨e, he, rfl⟩ := hl.occupied slot o ho
    rw [hl.width_eq he ho]
    exact hl.slotOf_add_width_le he
  disjoint slot slot' o o' hlt ho ho' := by
    obtain ⟨e, he, rfl⟩ := hl.occupied slot o ho
    obtain ⟨e', he', rfl⟩ := hl.occupied slot' o' ho'
    rw [hl.width_eq he ho]
    exact hl.slotOf_add_le he he' ((hl.slotOf_lt_iff he he').mp hlt)
  named slot o ho := by
    obtain ⟨e, he, rfl⟩ := hl.occupied slot o ho
    obtain ⟨hgeneration, hne⟩ := hl.generation_idOf he
    rw [hgeneration]
    exact hne

/-! ## The next object -/

theorem Layout.objectAt_next (hl : c.Layout h) (hnext : c.plan[c.cursor]? = some e) :
    ∃ o, h.objectAt e.sourceSlot = some o ∧ o.width = e.width := by
  have he := mem_of_next hnext
  obtain ⟨o, -, ho, -⟩ := hl.objects e he
  have hwidth := hl.width_eq he ho
  rw [slotOf_of_not_done (hl.not_done_next hnext)] at ho
  exact ⟨o, ho, hwidth⟩

/-- The destination of the next object holds no other object. -/
theorem Layout.destination_free (hl : c.Layout h) (hnext : c.plan[c.cursor]? = some e)
    {offset : ℕ} (hoffset : offset < e.width)
    (ho : h.objectAt (e.destinationSlot + offset) = some o) :
    e.destinationSlot + offset = e.sourceSlot := by
  have he := mem_of_next hnext
  obtain ⟨e', he', hslot⟩ := hl.occupied _ o ho
  have hle := hl.destinationSlot_le he
  by_cases hdone : c.Done e'
  · -- what has moved ends below the destination
    have hlt : e'.sourceSlot < e.sourceSlot := by
      rcases Nat.lt_trichotomy e'.sourceSlot e.sourceSlot with hlt | hsame | hlt
      · exact hlt
      · rw [hl.eq_of_sourceSlot he' he hsame] at hdone
        exact absurd hdone (hl.not_done_next hnext)
      · exact absurd (hl.done_of_lt he hdone hlt) (hl.not_done_next hnext)
    have hends := hl.destinationSlot_add_le he' he hlt
    have hpos := hl.width_pos he'
    rw [slotOf_of_done hdone] at hslot
    omega
  · rw [slotOf_of_not_done hdone] at hslot
    by_cases heq : e' = e
    · rw [← hslot, heq]
    · have hlt := hl.lt_of_next hnext he' hdone heq
      have hends := hl.sourceSlot_add_le_sourceSlot he he' hlt
      omega

/-! ## Moving it -/

/-- The current identifier of an object, from its source identifier. -/
theorem Layout.currentOf_sourceId (hl : c.Layout h) (he : e ∈ c.plan) :
    c.currentOf e.sourceId = c.idOf e := by
  rw [currentOf, hl.forwarded_sourceId he]
  by_cases hdone : c.Done e
  · rw [if_pos hdone, idOf_of_done hdone]
    rfl
  · rw [if_neg hdone, idOf_of_not_done hdone]
    rfl

theorem slotOf_advance_self (hnext : c.plan[c.cursor]? = some e) :
    (c.advance e).slotOf e = e.destinationSlot :=
  slotOf_of_done ((done_advance hnext).mpr (.inr rfl))

theorem idOf_advance_self (hnext : c.plan[c.cursor]? = some e) :
    (c.advance e).idOf e = e.destinationId :=
  idOf_of_done ((done_advance hnext).mpr (.inr rfl))

theorem slotOf_advance_of_ne (hnext : c.plan[c.cursor]? = some e) (hne : e' ≠ e) :
    (c.advance e).slotOf e' = c.slotOf e' := by
  have hdone : (c.advance e).Done e' ↔ c.Done e' := by
    rw [done_advance hnext]
    exact or_iff_left hne
  rw [slotOf, slotOf]
  exact if_congr hdone rfl rfl

theorem idOf_advance_of_ne (hnext : c.plan[c.cursor]? = some e) (hne : e' ≠ e) :
    (c.advance e).idOf e' = c.idOf e' := by
  have hdone : (c.advance e).Done e' ↔ c.Done e' := by
    rw [done_advance hnext]
    exact or_iff_left hne
  rw [idOf, idOf]
  exact if_congr hdone rfl rfl

/-- What an identifier names does not change when objects move. -/
theorem Names.advance (hn : c.Names id e') (hnext : c.plan[c.cursor]? = some e) :
    (c.advance e).Names id e' :=
  ⟨hn.planned, hn.named.imp_right fun hand => ⟨(done_advance hnext).mpr (.inl hand.1), hand.2⟩⟩

end Next

end IncrementalCompaction

/-- Forwards an identifier of a side table when the object of the entry moves. -/
def IncrementalCompactionEntry.forwardOwner (e : IncrementalCompactionEntry) (id : ObjectId) :
    ObjectId :=
  if id = e.sourceId then e.destinationId else id

/-- The heap once the object `o` of `e` has moved and the side tables are forwarded. -/
def Heap.moved (h : Heap) (c : IncrementalCompaction) (e : IncrementalCompactionEntry)
    (o : Object) : Heap :=
  (h.moveEntry c e o).forwardRegistries e

namespace IncrementalCompaction

section Moved

variable {c : IncrementalCompaction} {h : Heap} {e e' : IncrementalCompactionEntry}
  {id : ObjectId} {slot : ℕ} {o : Object}

theorem Layout.forwardOwner_idOf (hl : c.Layout h) (hnext : c.plan[c.cursor]? = some e)
    (he' : e' ∈ c.plan) : e.forwardOwner (c.idOf e') = (c.advance e).idOf e' := by
  have he := mem_of_next hnext
  have hsource := idOf_of_not_done (hl.not_done_next hnext)
  rw [IncrementalCompactionEntry.forwardOwner]
  by_cases heq : e' = e
  · rw [heq, if_pos hsource, idOf_advance_self hnext]
  · rw [idOf_advance_of_ne hnext heq, if_neg]
    intro hid
    exact heq (hl.names_unique (hid ▸ names_idOf he') ⟨he, .inl rfl⟩)

theorem length_moved : (h.moved c e o).objects.length = h.objects.length := by
  show ((if e.sourceSlot = e.destinationSlot then h.objects
    else h.objects.set e.sourceSlot none).set e.destinationSlot _).length = _
  rw [List.length_set]
  split
  · rfl
  · exact List.length_set

theorem Layout.objectAt_moved (hl : c.Layout h) (he : e ∈ c.plan) (slot : ℕ) :
    (h.moved c e o).objectAt slot =
      if slot = e.destinationSlot then some o.promote
      else if slot = e.sourceSlot then none else h.objectAt slot := by
  have hinside := hl.sourceSlot_add_le he
  have hle := hl.destinationSlot_le he
  have hpos := hl.width_pos he
  show ((if e.sourceSlot = e.destinationSlot then h.objects
    else h.objects.set e.sourceSlot none).set e.destinationSlot _).getD slot none = _
  rw [getD_set]
  by_cases hslot : slot = e.destinationSlot
  · rw [if_pos hslot, if_pos]
    refine ⟨hslot.symm, ?_⟩
    split
    · omega
    · rw [List.length_set]
      omega
  · rw [if_neg hslot, if_neg fun hand => hslot hand.1.symm]
    by_cases hstays : e.sourceSlot = e.destinationSlot
    · rw [if_pos hstays, if_neg (hstays ▸ hslot)]
      rfl
    · rw [if_neg hstays, getD_set]
      by_cases hsource : slot = e.sourceSlot
      · rw [if_pos hsource, if_pos ⟨hsource.symm, by omega⟩]
      · rw [if_neg hsource, if_neg fun hand => hsource hand.1.symm]
        rfl

theorem Layout.generationAt_moved (hl : c.Layout h) (he : e ∈ c.plan)
    (hlengths : h.generations.length = h.objects.length) (slot : ℕ) :
    (h.moved c e o).generationAt slot =
      if slot = e.destinationSlot then e.destinationId.generation else h.generationAt slot := by
  have hinside := hl.sourceSlot_add_le he
  have hle := hl.destinationSlot_le he
  have hpos := hl.width_pos he
  show (h.generations.set e.destinationSlot _).getD slot 0 = _
  rw [getD_set]
  by_cases hslot : slot = e.destinationSlot
  · rw [if_pos hslot, if_pos ⟨hslot.symm, by omega⟩]
  · rw [if_neg hslot, if_neg fun hand => hslot hand.1.symm]
    rfl

/-- The objects of the other entries stay where they are. -/
theorem Layout.objectAt_moved_of_ne (hl : c.Layout h) (hnext : c.plan[c.cursor]? = some e)
    (he' : e' ∈ c.plan) (hne : e' ≠ e) :
    (h.moved c e o).objectAt (c.slotOf e') = h.objectAt (c.slotOf e') := by
  have he := mem_of_next hnext
  have hsource := slotOf_of_not_done (hl.not_done_next hnext)
  rw [hl.objectAt_moved he, if_neg, if_neg]
  · intro hslot
    exact hne (hl.eq_of_slotOf he' he (hslot.trans hsource.symm))
  · intro hslot
    -- the destination holds no object but the one that moves
    obtain ⟨o', -, ho', -⟩ := hl.objects e' he'
    rw [hslot] at ho'
    have hfree : e.destinationSlot + 0 = e.sourceSlot :=
      hl.destination_free hnext (hl.width_pos he) ho'
    rw [Nat.add_zero] at hfree
    exact hne (hl.eq_of_slotOf he' he ((hslot.trans hfree).trans hsource.symm))

theorem Layout.objectAt_moved_self (hl : c.Layout h) (he : e ∈ c.plan) :
    (h.moved c e o).objectAt e.destinationSlot = some o.promote := by
  rw [hl.objectAt_moved he, if_pos rfl]

/-- Every object is at the place of its entry. -/
theorem Layout.occupied_moved (hl : c.Layout h) (hnext : c.plan[c.cursor]? = some e)
    {o' : Object} (ho' : (h.moved c e o).objectAt slot = some o') :
    ∃ e' ∈ c.plan, (c.advance e).slotOf e' = slot := by
  have he := mem_of_next hnext
  rw [hl.objectAt_moved he] at ho'
  split at ho'
  · next hslot => exact ⟨e, he, (slotOf_advance_self hnext).trans hslot.symm⟩
  · split at ho'
    · exact nomatch ho'
    · next hsource =>
      obtain ⟨e', he', hslot⟩ := hl.occupied slot o' ho'
      refine ⟨e', he', ?_⟩
      rwa [slotOf_advance_of_ne hnext]
      rintro rfl
      rw [slotOf_of_not_done (hl.not_done_next hnext)] at hslot
      exact hsource hslot.symm

theorem Layout.getD_forwarding_advance (hl : c.Layout h) (he : e ∈ c.plan) (slot : ℕ) :
    (c.advance e).forwarding.getD slot none =
      if slot = e.sourceSlot then some e.destinationId else c.forwarding.getD slot none := by
  have hinside := hl.sourceSlot_add_le he
  have hpos := hl.width_pos he
  have hlength := hl.forwardingLength
  show (c.forwarding.set e.sourceSlot _).getD slot none = _
  rw [getD_set]
  by_cases hslot : slot = e.sourceSlot
  · rw [if_pos hslot, if_pos ⟨hslot.symm, by omega⟩]
  · rw [if_neg hslot, if_neg fun hand => hslot hand.1.symm]

theorem Layout.currentOf_advance (hl : c.Layout h) (hnext : c.plan[c.cursor]? = some e)
    (he' : e' ∈ c.plan) : (c.advance e).currentOf e'.sourceId = (c.advance e).idOf e' := by
  have he := mem_of_next hnext
  have hsource := hl.sourceIds_sourceId he'
  have hforwarded : (c.advance e).forwarded e'.sourceId =
      if e'.sourceSlot = e.sourceSlot then some e.destinationId
      else c.forwarding.getD e'.sourceSlot none := by
    rw [forwarded]
    show (if c.sourceIds.getD e'.sourceId.slot none = some e'.sourceId then
      (c.advance e).forwarding.getD e'.sourceId.slot none else none) = _
    rw [if_pos hsource, hl.getD_forwarding_advance he, hl.slot_sourceId he']
  rw [currentOf, hforwarded]
  by_cases heq : e' = e
  · rw [heq, if_pos rfl, idOf_advance_self hnext]
    rfl
  · have hne : e'.sourceSlot ≠ e.sourceSlot := fun hslot =>
      heq (hl.eq_of_sourceSlot he' he hslot)
    have hold := hl.currentOf_sourceId he'
    rw [currentOf, forwarded, if_pos hsource, hl.slot_sourceId he'] at hold
    rw [if_neg hne, hold, idOf_advance_of_ne hnext heq]

/-- Forwarding the current identifier of an object of the plan. -/
theorem Layout.forwardOwner_currentOf (hl : c.Layout h) (hnext : c.plan[c.cursor]? = some e)
    (hid : ∃ e' ∈ c.plan, e'.sourceId = id) :
    e.forwardOwner (c.currentOf id) = (c.advance e).currentOf id := by
  obtain ⟨e', he', rfl⟩ := hid
  rw [hl.currentOf_sourceId he', hl.forwardOwner_idOf hnext he', hl.currentOf_advance hnext he']

/-- A move keeps the layout of the phase. -/
theorem Layout.moveEntry (hl : c.Layout h) (hnext : c.plan[c.cursor]? = some e)
    (hlengths : h.generations.length = h.objects.length)
    (ho : h.objectAt e.sourceSlot = some o) :
    (c.advance e).Layout (h.moved c e o) := by
  have he := mem_of_next hnext
  have hlength : (h.moved c e o).objects.length = h.objects.length := length_moved
  have hsource := slotOf_of_not_done (hl.not_done_next hnext)
  have hother : ∀ e' ∈ c.plan, e' ≠ e → e'.destinationSlot ≠ e.destinationSlot :=
    fun e' he' hne hslot => hne (hl.eq_of_destinationSlot he' he hslot)
  have hgeneration := hl.generationAt_moved (o := o) he hlengths
  refine ⟨?_, ?_, hl.shadowLength.trans hlength.symm, hl.generationsLength.trans hlength.symm,
    hl.disjoint, ?_, hl.sources, ?_, hl.covers, hl.sourceIds, ?_, ?_, ?_, ?_, ?_,
    fun slot o' ho' => hl.occupied_moved hnext ho', ?_, ?_, ?_, hl.shadowIds⟩
  · obtain ⟨hcursor, -⟩ := List.getElem?_eq_some_iff.mp hnext
    exact hcursor
  · rw [hlength, ← hl.forwardingLength]
    exact List.length_set
  · rw [hlength]
    exact hl.inside
  · intro e' he'
    have hp := hl.planned e' he'
    exact ⟨hp.shadow, hp.source, hp.named, hp.slides, hp.destination, hp.generation⟩
  · intro slot id
    rw [hl.getD_forwarding_advance he]
    constructor
    · intro hid
      split at hid
      · next hslot =>
        cases hid
        exact ⟨e, he, (done_advance hnext).mpr (.inr rfl), hslot.symm, rfl⟩
      · obtain ⟨e', he', hdone, hrest⟩ := (hl.forwarding slot id).mp hid
        exact ⟨e', he', (done_advance hnext).mpr (.inl hdone), hrest⟩
    · rintro ⟨e', he', hdone, rfl, rfl⟩
      by_cases heq : e' = e
      · rw [heq, if_pos rfl]
      · rw [if_neg fun hslot => heq (hl.eq_of_sourceSlot he' he hslot)]
        have hdone' := ((done_advance hnext).mp hdone).resolve_right heq
        exact (hl.forwarding _ _).mpr ⟨e', he', hdone', rfl, rfl⟩
  · intro e' he' hdone
    rw [hgeneration]
    by_cases heq : e' = e
    · rw [heq, if_pos rfl]
    · rw [if_neg (hother e' he' heq)]
      exact hl.reached e' he' (((done_advance hnext).mp hdone).resolve_right heq)
  · intro slot hslot
    rw [hgeneration, if_neg]
    · exact hl.kept slot fun e' he' hdone => hslot e' he' ((done_advance hnext).mpr (.inl hdone))
    · exact fun heq => hslot e he ((done_advance hnext).mpr (.inr rfl)) heq.symm
  · intro e' he'
    obtain ⟨o', shadow, ho', hshadow, hm⟩ := hl.objects e' he'
    by_cases heq : e' = e
    · subst heq
      rw [hsource, ho] at ho'
      cases ho'
      refine ⟨o.promote, shadow, ?_, hshadow, ⟨hm.payload, hm.unmarked⟩⟩
      rw [slotOf_advance_self hnext]
      exact hl.objectAt_moved_self he
    · refine ⟨o', shadow, ?_, hshadow, ⟨hm.payload, hm.unmarked⟩⟩
      rw [slotOf_advance_of_ne hnext heq, hl.objectAt_moved_of_ne hnext he' heq]
      exact ho'
  · intro e' he' hdone o' ho'
    by_cases heq : e' = e
    · rw [heq, hl.objectAt_moved_self he] at ho'
      cases ho'
      rfl
    · have hdone' := ((done_advance hnext).mp hdone).resolve_right heq
      have hsame := hl.objectAt_moved_of_ne (o := o) hnext he' heq
      rw [slotOf_of_done hdone'] at hsame
      exact hl.moved e' he' hdone' o' (hsame ▸ ho')
  · show h.weakRefs.map e.forwardOwner = _
    rw [hl.weakRefs, List.map_map]
    exact List.map_congr_left fun id hid =>
      hl.forwardOwner_currentOf hnext (hl.shadowIds id (.inl hid))
  · show h.ephemerons.map e.forwardOwner = _
    rw [hl.ephemerons, List.map_map]
    exact List.map_congr_left fun id hid =>
      hl.forwardOwner_currentOf hnext (hl.shadowIds id (.inr (.inl hid)))
  · show h.internTable.map (fun entry =>
      { entry with canonical := e.forwardOwner entry.canonical }) = _
    rw [hl.internTable, List.map_map]
    refine List.map_congr_left fun entry hentry => ?_
    have hid := hl.shadowIds entry.canonical (.inr (.inr (List.mem_map_of_mem hentry)))
    show InternEntry.mk entry.contentHash (e.forwardOwner (c.currentOf entry.canonical)) = _
    rw [hl.forwardOwner_currentOf hnext hid]

end Moved

end IncrementalCompaction

/-! ## Renumbering the objects -/

namespace Heap

/-- `h'` holds the objects of `h` under the identifiers `f` gives them, with their payloads
unchanged and in the same order; what an identifier names in `h` it still names. -/
structure Renumbers (h h' : Heap) (f : ObjectId → ObjectId) : Prop where
  target : ∀ id o, h.lookup id = some o →
    ∃ o', h'.lookup (f id) = some o' ∧ o'.payload = o.payload
  origin : ∀ id' o', h'.lookup id' = some o' → ∃ id o, h.lookup id = some o ∧ f id = id'
  ordered : ∀ id₁ id₂, h.Current id₁ → h.Current id₂ → id₁.slot < id₂.slot →
    (f id₁).slot < (f id₂).slot
  resolves : ∀ id slot o, h.resolve id = .ok (slot, o) →
    ∃ slot' o', h'.resolve id = .ok (slot', o') ∧ o'.payload = o.payload

section Renumbers

variable {h h' : Heap} {f : ObjectId → ObjectId} {id : ObjectId}

theorem Renumbers.valid (hr : h.Renumbers h' f) {value : Value} (hv : h.Valid value) :
    h'.Valid value := fun id heq =>
  let ⟨slot, o, hres⟩ := hv id heq
  let ⟨slot', o', hres', _⟩ := hr.resolves id slot o hres
  ⟨slot', o', hres'⟩

theorem Renumbers.origin_objectAt (hr : h.Renumbers h' f) (hst' : h'.Storage) {slot' : ℕ}
    {o' : Object} (ho' : h'.objectAt slot' = some o') :
    ∃ id o, h.lookup id = some o ∧ f id = h'.currentId slot' ∧ o'.payload = o.payload := by
  have hlookup := hst'.lookup_currentId ho'
  obtain ⟨id, o, ho, hid⟩ := hr.origin _ o' hlookup
  obtain ⟨o₁, ho₁, hp⟩ := hr.target id o ho
  rw [hid, hlookup] at ho₁
  cases ho₁
  exact ⟨id, o, ho, hid, hp⟩

theorem Renumbers.checkedString (hr : h.Renumbers h' f) {bytes : List UInt8}
    (hb : h.checkedString id = .ok bytes) : h'.checkedString id = .ok bytes := by
  obtain ⟨slot, o, hres, hp⟩ := checkedString_eq_ok.mp hb
  obtain ⟨slot', o', hres', hp'⟩ := hr.resolves id slot o hres
  exact checkedString_eq_ok.mpr ⟨slot', o', hres', hp'.trans hp⟩

theorem Renumbers.indexedMap (hr : h.Renumbers h' f) {m : MapPayload} (hm : h.IndexedMap m) :
    h'.IndexedMap m where
  capacity := hm.capacity
  index := by
    refine insertMapEntries_congr (List.forall₂_same.mpr fun entry _ hash hhash => ?_) hm.index
    have hsame : h'.mapKeyHash (entry.key.mapObject fun id => id) = .ok hash :=
      mapKeyHash_mapObject (fun id bytes _ hb => hr.checkedString hb) hhash
    rwa [mapObject_id] at hsame

theorem Renumbers.stringAt_iff (hr : h.Renumbers h' f) (hid : h.Current id)
    {bytes : List UInt8} : h'.StringAt (f id) bytes ↔ h.StringAt id bytes := by
  obtain ⟨o, ho⟩ := hid
  obtain ⟨o', ho', hp⟩ := hr.target id o ho
  constructor
  · rintro ⟨o₁, ho₁, hb⟩
    rw [ho'] at ho₁
    cases ho₁
    exact ⟨o, ho, hp ▸ hb⟩
  · rintro ⟨o₁, ho₁, hb⟩
    rw [ho] at ho₁
    cases ho₁
    exact ⟨o', ho', hp.trans hb⟩

theorem Renumbers.isRegistry (hr : h.Renumbers h' f) {kind : ObjectKind}
    {registry : List ObjectId} (hreg : h.IsRegistry kind registry) :
    h'.IsRegistry kind (registry.map f) where
  ordered := by
    rw [List.pairwise_map]
    refine hreg.ordered.imp_of_mem fun {id₁ id₂} h₁ h₂ hlt => hr.ordered id₁ id₂ ?_ ?_ hlt
    · obtain ⟨o, ho, -⟩ := (hreg.mem id₁).mp h₁
      exact ⟨o, ho⟩
    · obtain ⟨o, ho, -⟩ := (hreg.mem id₂).mp h₂
      exact ⟨o, ho⟩
  mem id' := by
    rw [List.mem_map]
    constructor
    · rintro ⟨id, hid, rfl⟩
      obtain ⟨o, ho, hk⟩ := (hreg.mem id).mp hid
      obtain ⟨o', ho', hp⟩ := hr.target id o ho
      exact ⟨o', ho', hp ▸ hk⟩
    · rintro ⟨o', ho', hk⟩
      obtain ⟨id, o, ho, rfl⟩ := hr.origin id' o' ho'
      obtain ⟨o₁, ho₁, hp⟩ := hr.target id o ho
      rw [ho'] at ho₁
      cases ho₁
      exact ⟨id, (hreg.mem id).mpr ⟨o, ho, hp ▸ hk⟩, rfl⟩

theorem Renumbers.interns (hr : h.Renumbers h' f) (hi : h.Interns)
    (htable : h'.internTable =
      h.internTable.map fun entry => { entry with canonical := f entry.canonical }) :
    h'.Interns := by
  have hcurrent : ∀ entry ∈ h.internTable, h.Current entry.canonical := fun entry hentry =>
    let ⟨o, ho, _⟩ := hi.listed hentry
    ⟨o, ho⟩
  refine ⟨?_, ?_, ?_⟩
  · rw [htable, List.pairwise_map]
    exact hi.ordered.imp_of_mem fun h₁ h₂ hlt =>
      hr.ordered _ _ (hcurrent _ h₁) (hcurrent _ h₂) hlt
  · intro entry' hentry'
    rw [htable, List.mem_map] at hentry'
    obtain ⟨entry, hentry, rfl⟩ := hentry'
    obtain ⟨bytes, hb, hhash⟩ := hi.hashed entry hentry
    exact ⟨bytes, (hr.stringAt_iff (hcurrent entry hentry)).mpr hb, hhash⟩
  · intro a' ha' b' hb' bytes hba hbb
    rw [htable, List.mem_map] at ha' hb'
    obtain ⟨a, ha, rfl⟩ := ha'
    obtain ⟨b, hb, rfl⟩ := hb'
    rw [hi.distinct a ha b hb bytes ((hr.stringAt_iff (hcurrent a ha)).mp hba)
      ((hr.stringAt_iff (hcurrent b hb)).mp hbb)]

/-- A renumbering keeps the clauses that do not depend on the phase. -/
theorem Sound.renumbers (hs : h.Sound) (hr : h.Renumbers h' f) (hst : h'.Storage)
    (hcells : ∀ value ∈ h'.rootCells, h'.Valid value)
    (hhandles : ∀ root ∈ h'.handleRoots, h'.Valid root.slot) (hremembers : h'.Remembers)
    (hweak : h'.weakRefs = h.weakRefs.map f) (hephemerons : h'.ephemerons = h.ephemerons.map f)
    (htable : h'.internTable =
      h.internTable.map fun entry => { entry with canonical := f entry.canonical }) :
    h'.Sound where
  storage := hst
  fields slot' o' ho' value hvalue := by
    obtain ⟨id, o, ho, -, hp⟩ := hr.origin_objectAt hst ho'
    exact hr.valid (hs.fields id.slot o (objectAt_of_lookup ho) value (hp ▸ hvalue))
  cells := hcells
  handles := hhandles
  remembers := hremembers
  weakRefs := hweak ▸ hr.isRegistry hs.weakRefs
  ephemerons := hephemerons ▸ hr.isRegistry hs.ephemerons
  interns := hr.interns hs.interns htable
  maps slot' o' m ho' hm := by
    obtain ⟨id, o, ho, -, hp⟩ := hr.origin_objectAt hst ho'
    exact hr.indexedMap (hs.maps id.slot o m (objectAt_of_lookup ho) (hp ▸ hm))

end Renumbers

/-! ## Edges of promoted objects -/

/-- The remembered set is right but for the old objects at the given slots. -/
structure RemembersBut (h : Heap) (slots : List ℕ) : Prop where
  nodup : h.rememberedSet.Nodup
  old : ∀ id ∈ h.rememberedSet, ∃ o, h.lookup id = some o ∧ o.isOld = true
  complete : ∀ slot o, h.objectAt slot = some o → o.isOld = true → slot ∉ slots →
    ∀ id, .object id ∈ o.payload.referenceFields → h.NamesYoung id →
      h.currentId slot ∈ h.rememberedSet

theorem RemembersBut.remembers {h : Heap} (hr : h.RemembersBut []) : h.Remembers :=
  ⟨hr.nodup, hr.old, fun slot o ho hold => hr.complete slot o ho hold List.not_mem_nil⟩

section Promoted

variable {h : Heap} {o : Object}

/-- Scanning the promoted objects completes the remembered set. -/
theorem wp_recordPromotedObjectEdges {slots : List ℕ} (hst : h.Storage)
    (hvalid : ∀ slot o, h.objectAt slot = some o → ∀ value ∈ o.payload.referenceFields,
      h.Valid value)
    (hslots : ∀ slot ∈ slots, ∃ o, h.objectAt slot = some o ∧ o.isOld = true)
    (hr : h.RemembersBut slots) :
    wp (recordPromotedObjectEdges slots)
      (fun _ h' => h' = { h with rememberedSet := h'.rememberedSet } ∧ h'.Remembers)
      (fun _ _ => False) h := by
  induction slots generalizing h with
  | nil => exact ⟨rfl, hr.remembers⟩
  | cons slot slots ih =>
    obtain ⟨o, ho, hold⟩ := hslots slot List.mem_cons_self
    obtain ⟨young, hyoung, hiff⟩ := hasYoungReference_eq_ok (hvalid slot o ho)
    have hlookup := hst.lookup_currentId ho
    unfold recordPromotedObjectEdges
    rw [wp_bind, wp_get]
    simp only [ho, hold, Bool.not_true, Bool.false_eq_true, if_false]
    refine wp_query_ok hyoung ?_
    -- the rest of the slots, from a heap that differs in the remembered set alone
    have hrest : ∀ rememberedSet,
        RemembersBut { h with rememberedSet := rememberedSet } slots →
        wp (recordPromotedObjectEdges slots)
          (fun _ h' => h' = { h with rememberedSet := h'.rememberedSet } ∧ h'.Remembers)
          (fun _ _ => False) { h with rememberedSet := rememberedSet } := by
      intro rememberedSet hr'
      have hst' : Storage { h with rememberedSet := rememberedSet } :=
        ⟨hst.size, hst.lengths, hst.inside, hst.disjoint, hst.named⟩
      exact ih hst' hvalid (fun s hs => hslots s (List.mem_cons_of_mem _ hs)) hr'
    have hskip : (∀ id, .object id ∈ o.payload.referenceFields → h.NamesYoung id →
        h.currentId slot ∈ h.rememberedSet) → h.RemembersBut slots := by
      intro hin
      refine ⟨hr.nodup, hr.old, fun slot' o' ho' hold' hslot' id hid hy => ?_⟩
      by_cases heq : slot' = slot
      · subst heq
        rw [ho] at ho'
        cases ho'
        exact hin id hid hy
      · refine hr.complete slot' o' ho' hold' (fun hmem => ?_) id hid hy
        rcases List.mem_cons.mp hmem with hhead | htail
        · exact heq hhead
        · exact hslot' htail
    cases hyoungCase : young with
    | false =>
      rw [hyoungCase] at hiff
      refine hrest h.rememberedSet (hskip fun id hid hy => ?_)
      cases (hiff.mpr ⟨id, hid, hy⟩)
    | true =>
      simp only [if_true, recordRememberedObject]
      rw [wp_bind]
      refine wp_query_ok (resolve_of_lookup hlookup) ?_
      simp only [hold, Bool.not_true, Bool.false_eq_true, if_false, wp_modify]
      split
      · next hmem => exact hrest h.rememberedSet (hskip fun _ _ _ => List.contains_iff_mem.mp hmem)
      · next hmem =>
        have hnew : h.currentId slot ∉ h.rememberedSet := fun hin =>
          hmem (List.contains_iff_mem.mpr hin)
        refine hrest (h.rememberedSet ++ [h.currentId slot]) ⟨?_, ?_, ?_⟩
        · exact List.nodup_append.mpr ⟨hr.nodup, List.nodup_singleton _, fun a ha b hb heq =>
            hnew (List.mem_singleton.mp hb ▸ heq ▸ ha)⟩
        · intro id hid
          rcases List.mem_append.mp hid with hin | hin
          · exact hr.old id hin
          · rw [List.mem_singleton.mp hin]
            exact ⟨o, hlookup, hold⟩
        · intro slot' o' ho' hold' hslot' id hid hy
          by_cases heq : slot' = slot
          · rw [heq]
            exact List.mem_append_right _ List.mem_cons_self
          · refine List.mem_append_left _ (hr.complete slot' o' ho' hold' (fun hin => ?_) id hid hy)
            rcases List.mem_cons.mp hin with hhead | htail
            · exact heq hhead
            · exact hslot' htail

end Promoted

end Heap

/-! ## One step -/

namespace IncrementalCompaction

open Heap

section Step

variable {c : IncrementalCompaction} {h : Heap} {e e' : IncrementalCompactionEntry}
  {id : ObjectId} {slot : ℕ} {o o' : Object}

theorem Layout.currentId_slotOf (hl : c.Layout h) (hst : h.Storage) (he : e ∈ c.plan) :
    h.currentId (c.slotOf e) = c.idOf e := by
  obtain ⟨o, -, ho, -⟩ := hl.objects e he
  rw [← hl.slot_idOf he]
  exact hst.currentId_of_lookup ((hl.lookup_idOf he).trans ho)

/-- Where the objects of the plan are after the step. -/
theorem Layout.objectAt_advance (hl : c.Layout h) (hnext : c.plan[c.cursor]? = some e)
    (ho : h.objectAt e.sourceSlot = some o) (he' : e' ∈ c.plan)
    (ho' : h.objectAt (c.slotOf e') = some o') :
    (h.moved c e o).objectAt ((c.advance e).slotOf e') =
      some (if e' = e then o'.promote else o') := by
  by_cases heq : e' = e
  · subst heq
    rw [slotOf_of_not_done (hl.not_done_next hnext), ho] at ho'
    cases ho'
    rw [if_pos rfl, slotOf_advance_self hnext]
    exact hl.objectAt_moved_self he'
  · rw [if_neg heq, slotOf_advance_of_ne hnext heq, hl.objectAt_moved_of_ne hnext he' heq]
    exact ho'

/-- A step renumbers the object it moves. -/
theorem Layout.renumbers (hl : c.Layout h) (hphase : h.phase = .compacting c)
    (hnext : c.plan[c.cursor]? = some e) (hlengths : h.generations.length = h.objects.length)
    (ho : h.objectAt e.sourceSlot = some o) :
    h.Renumbers (h.moved c e o) e.forwardOwner := by
  have hl' := hl.moveEntry hnext hlengths ho
  refine ⟨?_, ?_, ?_, ?_⟩
  · intro id o' hlookup
    obtain ⟨e', he', rfl⟩ := hl.eq_idOf_of_lookup hlookup
    rw [hl.lookup_idOf he'] at hlookup
    have hnew := hl.objectAt_advance hnext ho he' hlookup
    refine ⟨if e' = e then o'.promote else o', ?_, ?_⟩
    · rw [hl.forwardOwner_idOf hnext he', hl'.lookup_idOf he']
      exact hnew
    · split <;> rfl
  · intro id' o' hlookup
    obtain ⟨e', he', rfl⟩ := hl'.eq_idOf_of_lookup hlookup
    obtain ⟨o₁, -, ho₁, -⟩ := hl.objects e' he'
    exact ⟨c.idOf e', o₁, (hl.lookup_idOf he').trans ho₁, hl.forwardOwner_idOf hnext he'⟩
  · rintro id₁ id₂ ⟨o₁, ho₁⟩ ⟨o₂, ho₂⟩ hlt
    obtain ⟨e₁, he₁, rfl⟩ := hl.eq_idOf_of_lookup ho₁
    obtain ⟨e₂, he₂, rfl⟩ := hl.eq_idOf_of_lookup ho₂
    rw [hl.slot_idOf he₁, hl.slot_idOf he₂, hl.slotOf_lt_iff he₁ he₂] at hlt
    rw [hl.forwardOwner_idOf hnext he₁, hl.forwardOwner_idOf hnext he₂, hl'.slot_idOf he₁,
      hl'.slot_idOf he₂]
    exact (hl'.slotOf_lt_iff he₁ he₂).mpr hlt
  · intro id slot o' hr
    obtain ⟨e', hn, rfl, ho'⟩ := (hl.resolve_iff hphase).mp hr
    have hnew := hl.objectAt_advance hnext ho hn.planned ho'
    refine ⟨_, if e' = e then o'.promote else o',
      hl'.resolve_of_names rfl (hn.advance hnext) hnew, ?_⟩
    split <;> rfl

theorem Layout.unmarked_moved (hl : c.Layout h) (hnext : c.plan[c.cursor]? = some e)
    (ho : h.objectAt e.sourceSlot = some o) (hu : h.Unmarked) : (h.moved c e o).Unmarked := by
  intro slot o₁ ho₁
  obtain ⟨e', he', rfl⟩ := hl.occupied_moved hnext ho₁
  obtain ⟨o', -, ho', -⟩ := hl.objects e' he'
  rw [hl.objectAt_advance hnext ho he' ho'] at ho₁
  cases ho₁
  split
  · rfl
  · exact hu _ o' ho'

/-- What is young after the step was young before it. -/
theorem Layout.namesYoung_moved (hl : c.Layout h) (hphase : h.phase = .compacting c)
    (hnext : c.plan[c.cursor]? = some e) (hlengths : h.generations.length = h.objects.length)
    (ho : h.objectAt e.sourceSlot = some o) (hy : (h.moved c e o).NamesYoung id) :
    h.NamesYoung id := by
  have hl' := hl.moveEntry hnext hlengths ho
  obtain ⟨slot, target, hr, hyoung⟩ := hy
  obtain ⟨e', hn, rfl, ht⟩ := (hl'.resolve_iff rfl).mp hr
  obtain ⟨o', -, ho', -⟩ := hl.objects e' hn.planned
  rw [hl.objectAt_advance hnext ho hn.planned ho'] at ht
  by_cases heq : e' = e
  · -- the object that moves grows old
    rw [if_pos heq] at ht
    cases ht
    exact nomatch hyoung
  · rw [if_neg heq] at ht
    cases ht
    have hnames : c.Names id e' := ⟨hn.planned, hn.named.imp_right fun hand =>
      ⟨((done_advance hnext).mp hand.1).resolve_right heq, hand.2⟩⟩
    exact ⟨_, _, hl.resolve_of_names hphase hnames ho', hyoung⟩

/-- The forwarded remembered set lacks at most the object that has been promoted. -/
theorem Layout.remembersBut_moved (hl : c.Layout h) (hst : h.Storage)
    (hst' : (h.moved c e o).Storage) (hphase : h.phase = .compacting c)
    (hnext : c.plan[c.cursor]? = some e) (ho : h.objectAt e.sourceSlot = some o)
    (hr : h.Remembers) :
    (h.moved c e o).RemembersBut (if o.isYoung = true then [e.destinationSlot] else []) := by
  have hl' := hl.moveEntry hnext hst.lengths ho
  have hsource := slotOf_of_not_done (hl.not_done_next hnext)
  have hset : (h.moved c e o).rememberedSet = h.rememberedSet.map e.forwardOwner := rfl
  have hentries : ∀ id ∈ h.rememberedSet, ∃ e' ∈ c.plan, id = c.idOf e' := fun id hid =>
    let ⟨_, ho', _⟩ := hr.old id hid
    hl.eq_idOf_of_lookup ho'
  refine ⟨?_, ?_, ?_⟩
  · rw [hset]
    refine List.Nodup.map_on (fun id₁ h₁ id₂ h₂ heq => ?_) hr.nodup
    obtain ⟨e₁, he₁, rfl⟩ := hentries id₁ h₁
    obtain ⟨e₂, he₂, rfl⟩ := hentries id₂ h₂
    rw [hl.forwardOwner_idOf hnext he₁, hl.forwardOwner_idOf hnext he₂] at heq
    have hn : (c.advance e).Names ((c.advance e).idOf e₁) e₂ := by
      rw [heq]
      exact names_idOf he₂
    rw [hl'.names_unique (names_idOf he₁) hn]
  · intro id' hid'
    rw [hset, List.mem_map] at hid'
    obtain ⟨id, hid, rfl⟩ := hid'
    obtain ⟨o', ho', hold⟩ := hr.old id hid
    obtain ⟨e', he', rfl⟩ := hl.eq_idOf_of_lookup ho'
    rw [hl.lookup_idOf he'] at ho'
    refine ⟨if e' = e then o'.promote else o', ?_, ?_⟩
    · rw [hl.forwardOwner_idOf hnext he', hl'.lookup_idOf he']
      exact hl.objectAt_advance hnext ho he' ho'
    · split
      · rfl
      · exact hold
  · intro slot o₁ ho₁ hold hslot id hid hy
    obtain ⟨e', he', rfl⟩ := hl.occupied_moved hnext ho₁
    obtain ⟨o', -, ho', -⟩ := hl.objects e' he'
    rw [hl.objectAt_advance hnext ho he' ho'] at ho₁
    cases ho₁
    have hpayload : (if e' = e then o'.promote else o').payload = o'.payload := by
      split <;> rfl
    have hold' : o'.isOld = true := by
      by_cases heq : e' = e
      · subst heq
        rw [hsource, ho] at ho'
        cases ho'
        by_contra hnot
        have hyoung : o.isYoung = true := by
          unfold Object.isOld at hnot
          unfold Object.isYoung
          cases hg : o.generation <;> simp_all
        rw [if_pos hyoung, slotOf_advance_self hnext] at hslot
        exact hslot List.mem_cons_self
      · rwa [if_neg heq] at hold
    rw [hpayload] at hid
    have hmem := hr.complete _ o' ho' hold' id hid
      (hl.namesYoung_moved hphase hnext hst.lengths ho hy)
    rw [hl.currentId_slotOf hst he'] at hmem
    rw [hset, hl'.currentId_slotOf hst' he', ← hl.forwardOwner_idOf hnext he']
    exact List.mem_map_of_mem hmem

end Step

end IncrementalCompaction

end LanguageRuntime.Gc
