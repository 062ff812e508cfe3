import LanguageRuntime.Gc.IdentityCollect
import LanguageRuntime.Gc.Invariant

/-!
# Retired identifiers

An identifier that has lost its object names nothing, and no later operation brings it back: its
slot stays empty until it reaches a later generation.
-/

namespace LanguageRuntime.Gc

open LanguageRuntime LanguageRuntime.Library Heap

/-! ## The invariant -/

/-- Executing the entry keeps the generation of an object that stays and raises the one of the slot
an object moves to. -/
structure IncrementalCompactionEntry.Advances (entry : IncrementalCompactionEntry)
    (generations : List ℕ) : Prop where
  inside : entry.destinationSlot < generations.length
  stays : entry.sourceSlot = entry.destinationSlot →
    entry.destinationId.generation = generations.getD entry.destinationSlot 0
  moves : entry.sourceSlot ≠ entry.destinationSlot →
    generations.getD entry.destinationSlot 0 < entry.destinationId.generation

/-- The tables of an incremental compaction that does not bring `id` back. -/
structure IncrementalCompaction.Retires (c : IncrementalCompaction) (generations : List ℕ)
    (id : ObjectId) : Prop where
  ordered : c.plan.Pairwise (·.destinationSlot < ·.destinationSlot)
  pending : ∀ entry ∈ c.plan.drop c.cursor, entry.Advances generations
  unlisted : c.sourceIds.getD id.slot none ≠ some id

/-- No object answers to the identifier, now or later. -/
structure Heap.Retired (id : ObjectId) (h : Heap) : Prop where
  ledger : h.ledger.Retired (id.slot, id.generation)
  lengths : h.generations.length = h.objects.length
  compacting : ∀ c, h.phase = .compacting c → c.Retires h.generations id

variable {id : ObjectId} {h h' : Heap} {slot i g : ℕ} {o : Object}

theorem Heap.Retired.generation_ne (hr : h.Retired id) (ho : h.objectAt id.slot = some o) :
    h.generationAt id.slot ≠ id.generation := by
  intro hgeneration
  have hnone : (serials h.objects).getD id.slot none = none := hr.ledger.vacant hgeneration
  rw [occupant_ledger ho] at hnone
  exact nomatch hnone

/-- A retired identifier is rejected. -/
theorem Heap.Retired.not_resolves (hr : h.Retired id) : ¬h.Resolves id := by
  rintro ⟨slot, o, hresolve⟩
  rcases resolve_eq_ok hresolve with ⟨hl, -⟩ | ⟨-, c, destination, hc, hd, -⟩
  · obtain ⟨-, hgeneration, ho⟩ := lookup_eq_some.mp hl
    exact hr.generation_ne ho hgeneration
  · unfold IncrementalCompaction.forwarded at hd
    split at hd
    · next hsource => exact (hr.compacting c hc).unlisted hsource
    · exact nomatch hd

/-! ## The changes of the ledger -/

theorem IncrementalCompactionEntry.Advances.append {entry : IncrementalCompactionEntry}
    {generations : List ℕ} (ha : entry.Advances generations) (n : ℕ) :
    entry.Advances (generations ++ List.replicate n 0) := by
  refine ⟨?_, ?_, ?_⟩
  · rw [List.length_append]
    exact Nat.lt_add_right _ ha.inside
  · rw [getD_append_default]
    exact ha.stays
  · rw [getD_append_default]
    exact ha.moves

/-- Whether an identifier is retired does not depend on what has been issued. -/
theorem retired_slotLedger_place {objects : List (Option Object)} {generations : List ℕ}
    {issued issued' : List (ObjectId × ℕ)} {id : ℕ × ℕ}
    (hr : (slotLedger (serials objects) generations issued).Retired id)
    (hslot : slot < objects.length) (hlengths : generations.length = objects.length)
    (hle : generations.getD slot 0 ≤ g) (hne : generations.getD slot 0 = g → (slot, g) ≠ id) :
    (slotLedger (serials (objects.set slot (some o))) (generations.set slot g) issued').Retired
      id := by
  have hplace := hr.place o.serial hle hne
  rw [← slotLedger_place issued g o hslot hlengths] at hplace
  exact ⟨hplace.reached, hplace.vacant⟩

theorem Heap.Retired.evict (hr : h.Retired id) (hlength : h'.objects.length = h.objects.length)
    (hobjects : ∀ slot k, (serials h'.objects).getD slot none = some k →
      (serials h.objects).getD slot none = some k)
    (hgenerations : h'.generations = h.generations) (hplan : h.SamePlan h') : h'.Retired id := by
  refine ⟨?_, ?_, fun c' hc' => ?_⟩
  · have hl := hr.ledger.evict (fun slot => (serials h'.objects).getD slot none) hobjects
    refine ⟨?_, ?_⟩
    · show id.generation ≤ h'.generations.getD id.slot 0
      rw [hgenerations]
      exact hl.reached
    · show h'.generations.getD id.slot 0 = id.generation → _
      rw [hgenerations]
      exact hl.vacant
  · rw [hgenerations, hlength]
    exact hr.lengths
  · obtain ⟨c, hc, hsame, hcursor, -, hsourceIds⟩ := hplan c' hc'
    obtain ⟨hordered, hpending, hunlisted⟩ := hr.compacting c hc
    rw [hgenerations]
    exact ⟨hsame ▸ hordered, by rw [hsame, hcursor]; exact hpending, hsourceIds ▸ hunlisted⟩

/-! ### Atomic compaction -/

/-- The loop of `compact_live_objects` keeps the identifiers of `h` retired that were so. -/
structure CompactionResult.Retires (r : CompactionResult) (h : Heap) (id : ObjectId) : Prop where
  ledger : (slotLedger (serials r.objects) r.generations r.issued).Retired (id.slot, id.generation)
  lengths : r.generations.length = r.objects.length
  beyond : ∀ slot, r.nextLiveSlot ≤ slot → r.generations.getD slot 0 = h.generations.getD slot 0

theorem CompactionResult.Retires.place {r : CompactionResult} (hr : r.Retires h id)
    (hh : h.Retired id) (ho : h.objectAt i = some o)
    (hcapacity : r.nextLiveSlot + o.width ≤ r.objects.length)
    (hg : destinationGeneration i r.nextLiveSlot (r.generations.getD r.nextLiveSlot 0) = .ok g) :
    (r.place i o g).Retires h id := by
  have hwidth := o.width_pos
  have hnext : r.nextLiveSlot < r.objects.length := by omega
  have hsame := hr.beyond _ le_rfl
  refine ⟨?_, ?_, fun slot hslot => ?_⟩
  · refine retired_slotLedger_place hr.ledger hnext hr.lengths ?_ ?_
    · rcases destinationGeneration_eq_ok hg with ⟨-, hlt⟩ | ⟨-, rfl⟩
      · exact hlt.le
      · exact le_rfl
    · intro heq hid
      obtain ⟨hslot, hgeneration⟩ := Prod.mk.inj hid
      rcases destinationGeneration_eq_ok hg with ⟨-, hlt⟩ | ⟨rfl, -⟩
      · omega
      · -- the object stays, so its slot was occupied under that generation
        rw [hslot] at ho hsame heq
        refine hh.generation_ne ho ?_
        show h.generations.getD id.slot 0 = _
        omega
  · simpa [CompactionResult.place] using hr.lengths
  · have hne : r.nextLiveSlot ≠ slot ∧ r.nextLiveSlot ≤ slot := by
      simp only [CompactionResult.place] at hslot
      omega
    simp only [CompactionResult.place, getD_set_ne _ _ _ hne.1]
    exact hr.beyond slot hne.2

theorem compactLiveObjects_retires {kind : CollectionKind} {r : CompactionResult}
    (hh : h.Retired id) (hr : h.compactLiveObjects kind = .ok r) : r.Retires h id := by
  have hloop : Yields (h.compactLiveObjects kind) (fun r => r.Retires h id) fun _ => True := by
    refine yields_foldlM_range (P := fun _ (r : CompactionResult) => r.Retires h id) ?_
      fun i r _ hr => ?_
    · refine ⟨?_, by simpa using hh.lengths, fun _ _ => rfl⟩
      have hempty := hh.ledger.evict (fun _ => none) fun _ _ hk => nomatch hk
      refine ⟨hempty.reached, fun _ => ?_⟩
      simp [slotLedger, serials]
    · unfold compactSlot
      split
      · exact hr
      · next o ho =>
        split
        · exact hr
        · split
          · trivial
          · next hcapacity =>
            rw [yields_map, yields_iff]
            exact ⟨fun g hg => hr.place hh ho (Nat.not_lt.mp hcapacity) hg, fun _ _ => trivial⟩
  exact hloop.of_ok hr

theorem OwnershipInvariant.retired : OwnershipInvariant (Heap.Retired id) where
  frame hr hobjects hgenerations _ _ hplan :=
    hr.evict (by simpa [serials] using congrArg List.length hobjects)
      (fun slot k hk => by rwa [hobjects] at hk) hgenerations hplan
  compacted hr kind r hcompact hobjects hgenerations _ _ hphase := by
    have hsound := compactLiveObjects_retires hr hcompact
    have hlength : ∀ {objects : List (Option Object)}, serials objects = serials r.objects →
        objects.length = r.objects.length := fun hserials => by
      simpa [serials] using congrArg List.length hserials
    refine ⟨?_, ?_, fun c hc => ?_⟩
    · rw [Heap.ledger, hobjects, hgenerations]
      exact ⟨hsound.ledger.reached, hsound.ledger.vacant⟩
    · rw [hgenerations, hlength hobjects]
      exact hsound.lengths
    · rw [hphase] at hc
      cases hc

/-! ### The plan of an incremental compaction -/

/-- The planning loop: the entries lower no generation, and the sources are current. -/
structure CompactionPlan.Advances (p : CompactionPlan) (h : Heap) : Prop where
  beyond : ∀ slot, p.destinationSlot ≤ slot →
    p.destinationGenerations.getD slot 0 = h.generations.getD slot 0
  ordered : p.plan.Pairwise (·.destinationSlot < ·.destinationSlot)
  below : ∀ entry ∈ p.plan, entry.destinationSlot < p.destinationSlot
  entries : ∀ entry ∈ p.plan, entry.Advances h.generations
  sources : ∀ slot id, p.sourceIds.getD slot none = some id →
    id.generation = h.generationAt slot ∧ ∃ o, h.objectAt slot = some o

theorem CompactionPlan.Advances.place {p : CompactionPlan} (hp : p.Advances h)
    (hlengths : h.generations.length = h.objects.length) (ho : h.objectAt i = some o)
    (hcapacity : p.destinationSlot + o.width ≤ h.objects.length)
    (hg : destinationGeneration i p.destinationSlot
      (p.destinationGenerations.getD p.destinationSlot 0) = .ok g) :
    (p.place (h.currentId i) i o g).Advances h := by
  have hwidth := o.width_pos
  rw [hp.beyond _ le_rfl] at hg
  refine ⟨fun slot hslot => ?_, ?_, ?_, ?_, ?_⟩
  · have hne : p.destinationSlot ≠ slot ∧ p.destinationSlot ≤ slot := by
      simp only [CompactionPlan.place] at hslot
      omega
    simp only [CompactionPlan.place, getD_set_ne _ _ _ hne.1]
    exact hp.beyond slot hne.2
  · refine List.pairwise_append.mpr ⟨hp.ordered, List.pairwise_singleton _ _, ?_⟩
    intro entry hentry entry' hentry'
    rw [List.mem_singleton.mp hentry']
    exact hp.below entry hentry
  · intro entry hentry
    simp only [CompactionPlan.place]
    rcases List.mem_append.mp hentry with hentry | hentry
    · have hlt := hp.below entry hentry
      omega
    · rw [List.mem_singleton.mp hentry]
      show p.destinationSlot < p.destinationSlot + o.width
      omega
  · intro entry hentry
    rcases List.mem_append.mp hentry with hentry | hentry
    · exact hp.entries entry hentry
    · rw [List.mem_singleton.mp hentry]
      refine ⟨by simp only; omega, fun heq => ?_, fun hne => ?_⟩
      · obtain ⟨hne, -⟩ | ⟨-, rfl⟩ := destinationGeneration_eq_ok hg
        · exact absurd heq hne
        · rfl
      · obtain ⟨-, hlt⟩ | ⟨heq, -⟩ := destinationGeneration_eq_ok hg
        · exact hlt
        · exact absurd heq hne
  · intro slot id hid
    simp only [CompactionPlan.place, getD_set] at hid
    split at hid
    · next hslot =>
      cases hid
      rw [← hslot.1]
      exact ⟨rfl, o, ho⟩
    · exact hp.sources slot id hid

theorem planIncrementalCompaction_advances {p : CompactionPlan}
    (hlengths : h.generations.length = h.objects.length)
    (hp : h.planIncrementalCompaction = .ok p) : p.Advances h := by
  have hloop : Yields h.planIncrementalCompaction (fun p => p.Advances h) fun _ => True := by
    refine yields_foldlM_range (P := fun _ (p : CompactionPlan) => p.Advances h)
      ⟨fun _ _ => rfl, .nil, by simp, by simp, by simp⟩ fun i p _ hp => ?_
    unfold planSlot
    split
    · exact hp
    · next o ho =>
      split
      · exact hp
      · split
        · trivial
        · next hcapacity =>
          rw [yields_map, yields_iff]
          exact ⟨fun g hg => hp.place hlengths ho (Nat.not_lt.mp hcapacity) hg, fun _ _ => trivial⟩
  exact hloop.of_ok hp

/-- The sources of a plan are current identifiers, so a retired one is not among them. -/
theorem Heap.Retired.opened {planned : CompactionPlan} (hr₀ : h.Retired id)
    (hplan : h.planIncrementalCompaction = .ok planned) (hr : h'.Retired id)
    (hgenerations : h'.generations = h.generations) : (h'.openCompaction planned).Retired id := by
  have hadvances := planIncrementalCompaction_advances hr₀.lengths hplan
  refine ⟨hr.ledger, hr.lengths, fun c hc => ?_⟩
  cases hc
  refine ⟨hadvances.ordered, ?_, fun hlisted => ?_⟩
  · show ∀ entry ∈ planned.plan.drop 0, entry.Advances h'.generations
    rw [List.drop_zero, hgenerations]
    exact hadvances.entries
  · obtain ⟨hgeneration, o, ho⟩ := hadvances.sources id.slot id hlisted
    exact hr₀.generation_ne ho hgeneration.symm

/-! ### Moving one object -/

theorem Heap.Retired.moveEntry {c : IncrementalCompaction} {entry : IncrementalCompactionEntry}
    (hr : h.Retired id) (hc : h.phase = .compacting c) (hentry : c.plan[c.cursor]? = some entry)
    (hresolve : h.resolve entry.sourceId = .ok (entry.sourceSlot, o)) :
    (h.moveEntry c entry o).Retired id := by
  obtain ⟨hordered, hpending, hunlisted⟩ := hr.compacting c hc
  rw [drop_eq_cons hentry] at hpending
  have ha := hpending entry (List.mem_cons_self ..)
  let freed := if entry.sourceSlot = entry.destinationSlot then h.objects
    else h.objects.set entry.sourceSlot none
  have hlengths : h.generations.length = freed.length := by
    rw [hr.lengths]
    simp only [freed]
    split <;> simp
  have hfreed : (slotLedger (serials freed) h.generations h.issued).Retired
      (id.slot, id.generation) :=
    hr.ledger.evict _ fun slot k hk => by
      rw [serials_freed] at hk
      split at hk
      · exact nomatch hk
      · exact hk
  refine ⟨?_, ?_, fun c' hc' => ?_⟩
  · refine retired_slotLedger_place hfreed (hlengths ▸ ha.inside) hlengths ?_ ?_
    · by_cases heq : entry.sourceSlot = entry.destinationSlot
      · exact (ha.stays heq).ge
      · exact (ha.moves heq).le
    · intro hsame hid
      obtain ⟨hslot, hgeneration⟩ := Prod.mk.inj hid
      have hstays : entry.sourceSlot = entry.destinationSlot := by
        by_contra hne
        exact (ha.moves hne).ne hsame
      have ho := objectAt_of_resolve hresolve
      rw [hstays, hslot] at ho
      refine hr.generation_ne ho ?_
      show h.generations.getD id.slot 0 = _
      rw [← hslot, hsame, hgeneration]
  · have hlength : (h.moveEntry c entry o).objects.length = freed.length := List.length_set
    rw [hlength]
    exact List.length_set.trans hlengths
  · cases hc'
    refine ⟨hordered, fun later hlater => ?_, hunlisted⟩
    have hlt : entry.destinationSlot < later.destinationSlot := by
      have hdrop := hordered.sublist (List.drop_sublist c.cursor c.plan)
      rw [drop_eq_cons hentry] at hdrop
      exact (List.pairwise_cons.mp hdrop).1 later hlater
    have ha' := hpending later (List.mem_cons_of_mem _ hlater)
    have hgeneration : (h.moveEntry c entry o).generations.getD later.destinationSlot 0 =
        h.generations.getD later.destinationSlot 0 := getD_set_ne _ _ _ hlt.ne
    refine ⟨?_, ?_, ?_⟩
    · simpa [Heap.moveEntry] using ha'.inside
    · rw [hgeneration]
      exact ha'.stays
    · rw [hgeneration]
      exact ha'.moves

/-! ### Allocation and growth -/

theorem Heap.Retired.resize (hr : h.Retired id) (size : ℕ) : (h.resize size).Retired id := by
  refine ⟨?_, ?_, fun c hc => ?_⟩
  · rw [ledger_resize]
    exact hr.ledger
  · rw [length_objects_resize, length_generations_resize, hr.lengths]
  · have hsound := hr.compacting c hc
    exact ⟨hsound.ordered, fun entry hentry => (hsound.pending entry hentry).append _,
      hsound.unlisted⟩

theorem Heap.Retired.installObject (hr : h.Retired id) (descriptor : Descriptor)
    {baseSlot generation : ℕ} (hbase : baseSlot < h.objects.length)
    (hgeneration : h.generationAt baseSlot < generation) (hphase : ∀ c, h.phase ≠ .compacting c) :
    (h.installObject descriptor baseSlot generation).Retired id := by
  refine ⟨?_, ?_, fun c hc => ?_⟩
  · exact retired_slotLedger_place hr.ledger hbase hr.lengths hgeneration.le
      fun heq => absurd heq hgeneration.ne
  · have hlength : (h.installObject descriptor baseSlot generation).objects.length =
        h.objects.length := List.length_set
    rw [hlength]
    exact List.length_set.trans hr.lengths
  · have hphase' := hphase
    simp only [Heap.installObject] at hc
    split at hc
    · cases hc
    · exact absurd hc (hphase c)

theorem Heap.Retired.relocated {oldSlot requiredWidth : ℕ} (hr : h.Retired id) (hg : 0 < g)
    (hwidth : 0 < requiredWidth)
    (hobjects : serials h'.objects = serials
      (((h.resize (h.objects.length + requiredWidth)).objects.set oldSlot none).set
        h.objects.length (some o)))
    (hgenerations : h'.generations =
      (h.resize (h.objects.length + requiredWidth)).generations.set h.objects.length g)
    (hphase : ∀ c, h'.phase = .compacting c → h.phase = .compacting c) : h'.Retired id := by
  let size := h.objects.length + requiredWidth
  have hrs := hr.resize size
  let freed := (h.resize size).objects.set oldSlot none
  have hfreed : (slotLedger (serials freed) (h.resize size).generations h.issued).Retired
      (id.slot, id.generation) :=
    hrs.ledger.evict _ fun slot k hk => by
      simp only [freed, serials, List.map_set, Option.map_none, getD_set_default] at hk
      split at hk
      · cases hk
      · exact hk
  have hlengths : (h.resize size).generations.length = freed.length := by
    simp only [freed, List.length_set]
    exact hrs.lengths
  have hsize : h.objects.length < freed.length := by
    simp only [freed, List.length_set, length_objects_resize]
    omega
  have hgeneration : (h.resize size).generations.getD h.objects.length 0 = 0 := by
    refine (generationAt_resize h size _).trans ?_
    exact List.getD_eq_default _ _ hr.lengths.le
  refine ⟨?_, ?_, fun c hc => ?_⟩
  · rw [Heap.ledger, hobjects, hgenerations]
    refine retired_slotLedger_place hfreed hsize hlengths ?_ ?_
    · rw [hgeneration]
      exact hg.le
    · intro heq
      rw [hgeneration] at heq
      omega
  · have hlength := congrArg List.length hobjects
    simp only [serials, List.length_map, List.length_set] at hlength
    rw [hgenerations, hlength, List.length_set]
    exact hrs.lengths
  · obtain ⟨hordered, hpending, hunlisted⟩ := hr.compacting c (hphase c hc)
    rw [hgenerations]
    refine ⟨hordered, fun entry hentry => ?_, hunlisted⟩
    have ha := (hpending entry hentry).append (size - h.generations.length)
    have hne : h.objects.length ≠ entry.destinationSlot := by
      have hinside := (hpending entry hentry).inside
      rw [hr.lengths] at hinside
      omega
    refine ⟨?_, ?_, ?_⟩
    · rw [List.length_set]
      exact ha.inside
    · rw [getD_set_ne _ _ _ hne]
      exact ha.stays
    · rw [getD_set_ne _ _ _ hne]
      exact ha.moves

theorem GrowthInvariant.retired : GrowthInvariant (Heap.Retired id) where
  toOwnershipInvariant := .retired
  evict hr hlength hobjects hgenerations _ _ hplan := hr.evict hlength hobjects hgenerations hplan
  opened hr₀ hplan hr hgenerations _ := hr₀.opened hplan hr hgenerations
  moved hr := hr.moveEntry
  reserved hr _ := hr.resize _
  installed descriptor _ _ hr := hr.installObject descriptor
  resize size hr := hr.resize size
  relocated hr _ hg _ hwidth hobjects hgenerations _ _ hphase :=
    hr.relocated hg hwidth hobjects hgenerations hphase

/-- A retired identifier is rejected in every later heap. -/
theorem Heap.Retired.run (hr : h.Retired id) (actions : List Action) :
    ¬(h.run actions).Resolves id :=
  (GrowthInvariant.retired.runs hr actions).not_resolves

end LanguageRuntime.Gc
