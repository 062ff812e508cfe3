import LanguageRuntime.Gc.RetirementTheorems
import LanguageRuntime.Gc.RunTheorems

/-!
# The limits of a heap

The slot vector never shrinks and no slot goes back to an earlier generation, so a heap that has
exceeded the limits of its identifiers has exceeded them for good.
-/

namespace LanguageRuntime.Gc

open LanguageRuntime LanguageRuntime.Library Heap

/-- The vector has `n` slots at least, `slot` has reached the generation `g`, and no step of an
incremental compaction takes a slot back to an earlier one. -/
structure Heap.Reached (n slot g : ℕ) (h : Heap) : Prop where
  size : n ≤ h.objects.length
  reached : g ≤ h.generationAt slot
  lengths : h.generations.length = h.objects.length
  ordered : ∀ c, h.phase = .compacting c → c.plan.Pairwise (·.destinationSlot < ·.destinationSlot)
  pending : ∀ c, h.phase = .compacting c →
    ∀ entry ∈ c.plan.drop c.cursor, entry.Advances h.generations

variable {h h' : Heap} {n slot g generation : ℕ} {o : Object}

/-- Changes that leave the generations and the plan alone. -/
theorem Heap.Reached.keep (hr : h.Reached n slot g) (hlength : h'.objects.length = h.objects.length)
    (hgenerations : h'.generations = h.generations) (hplan : h.SamePlan h') : h'.Reached n slot g := by
  refine ⟨hlength.symm ▸ hr.size, ?_, ?_, fun c' hc' => ?_, fun c' hc' => ?_⟩
  · rw [generationAt, hgenerations]
    exact hr.reached
  · rw [hgenerations, hlength]
    exact hr.lengths
  · obtain ⟨c, hc, hsame, -⟩ := hplan c' hc'
    exact hsame ▸ hr.ordered c hc
  · obtain ⟨c, hc, hsame, hcursor, -⟩ := hplan c' hc'
    rw [hsame, hcursor, hgenerations]
    exact hr.pending c hc

/-- A compaction raises the generations of the slots it moves objects to. -/
theorem compactLiveObjects_reached {kind : CollectionKind} {r : CompactionResult}
    (hh : h.Reached n slot g) (hr : h.compactLiveObjects kind = .ok r) :
    g ≤ r.generations.getD slot 0 ∧ r.generations.length = h.objects.length ∧
      r.objects.length = h.objects.length := by
  have hloop : Yields (h.compactLiveObjects kind) (fun r => g ≤ r.generations.getD slot 0 ∧
      r.generations.length = h.objects.length ∧ r.objects.length = h.objects.length)
      fun _ => True := by
    refine yields_foldlM_range (P := fun _ (r : CompactionResult) =>
      g ≤ r.generations.getD slot 0 ∧ r.generations.length = h.objects.length ∧
        r.objects.length = h.objects.length) ?_ fun i r _ hr => ?_
    · exact ⟨hh.reached, hh.lengths, List.length_replicate⟩
    · unfold compactSlot
      split
      · exact hr
      · next o ho =>
        split
        · exact hr
        · split
          · trivial
          · rw [yields_map, yields_iff]
            refine ⟨fun generation hg => ⟨?_, ?_⟩, fun _ _ => trivial⟩
            · have hle : r.generations.getD r.nextLiveSlot 0 ≤ generation := by
                rcases destinationGeneration_eq_ok hg with ⟨-, hlt⟩ | ⟨-, rfl⟩
                · exact hlt.le
                · exact le_rfl
              show g ≤ (r.generations.set r.nextLiveSlot generation).getD slot 0
              rw [getD_set]
              split
              · next hslot => exact (hslot.1 ▸ hr.1).trans hle
              · exact hr.1
            · simpa [CompactionResult.place] using hr.2
  exact hloop.of_ok hr

theorem OwnershipInvariant.reached : OwnershipInvariant (Heap.Reached n slot g) where
  frame hr hobjects hgenerations _ _ hplan :=
    hr.keep (by simpa [serials] using congrArg List.length hobjects) hgenerations hplan
  compacted hr kind r hcompact hobjects hgenerations _ _ hphase := by
    obtain ⟨hreached, hlengths, hsize⟩ := compactLiveObjects_reached hr hcompact
    have hlength := congrArg List.length hobjects
    simp only [serials, List.length_map] at hlength
    refine ⟨?_, ?_, ?_, fun c hc => ?_, fun c hc => ?_⟩
    · rw [hlength, hsize]
      exact hr.size
    · rw [generationAt, hgenerations]
      exact hreached
    · rw [hgenerations, hlength, hsize]
      exact hlengths
    · rw [hphase] at hc
      cases hc
    · rw [hphase] at hc
      cases hc

theorem Heap.Reached.moveEntry {c : IncrementalCompaction} {entry : IncrementalCompactionEntry}
    (hr : h.Reached n slot g) (hc : h.phase = .compacting c) (hentry : c.plan[c.cursor]? = some entry) :
    (h.moveEntry c entry o).Reached n slot g := by
  have hordered := hr.ordered c hc
  have hpending := hr.pending c hc
  rw [drop_eq_cons hentry] at hpending
  have ha := hpending entry List.mem_cons_self
  refine ⟨?_, ?_, ?_, fun c' hc' => ?_, fun c' hc' later hlater => ?_⟩
  · have hsize := hr.size
    simp only [Heap.moveEntry, List.length_set]
    split <;> simpa using hsize
  · have hle : h.generations.getD entry.destinationSlot 0 ≤ entry.destinationId.generation := by
      by_cases heq : entry.sourceSlot = entry.destinationSlot
      · exact (ha.stays heq).ge
      · exact (ha.moves heq).le
    show g ≤ (h.generations.set _ _).getD slot 0
    rw [getD_set]
    split
    · next hslot => exact (show g ≤ h.generations.getD _ 0 from hslot.1 ▸ hr.reached).trans hle
    · exact hr.reached
  · have hlengths := hr.lengths
    simp only [Heap.moveEntry, List.length_set]
    split <;> simpa using hlengths
  · cases hc'
    exact hordered
  · cases hc'
    have hdrop := hordered.sublist (List.drop_sublist c.cursor c.plan)
    rw [drop_eq_cons hentry] at hdrop
    have hlt := (List.pairwise_cons.mp hdrop).1 later hlater
    have ha' := hpending later (List.mem_cons_of_mem _ hlater)
    have hgeneration : (h.moveEntry c entry o).generations.getD later.destinationSlot 0 =
        h.generations.getD later.destinationSlot 0 := getD_set_ne _ _ _ hlt.ne
    refine ⟨?_, ?_, ?_⟩
    · simpa [Heap.moveEntry] using ha'.inside
    · rw [hgeneration]
      exact ha'.stays
    · rw [hgeneration]
      exact ha'.moves

theorem Heap.Reached.resize (hr : h.Reached n slot g) (size : ℕ) : (h.resize size).Reached n slot g := by
  refine ⟨?_, ?_, ?_, fun c hc => hr.ordered c hc, fun c hc entry hentry => ?_⟩
  · have hsize := hr.size
    rw [length_objects_resize]
    omega
  · rw [generationAt_resize]
    exact hr.reached
  · rw [length_objects_resize, length_generations_resize, hr.lengths]
  · exact (hr.pending c hc entry hentry).append _

theorem Heap.Reached.installObject (hr : h.Reached n slot g) (descriptor : Descriptor) {baseSlot : ℕ}
    (hgeneration : h.generationAt baseSlot < generation) (hphase : ∀ c, h.phase ≠ .compacting c) :
    (h.installObject descriptor baseSlot generation).Reached n slot g := by
  have hsettled : ∀ c, (h.installObject descriptor baseSlot generation).phase ≠ .compacting c := by
    intro c hc
    simp only [Heap.installObject] at hc
    split at hc
    · cases hc
    · exact absurd hc (hphase c)
  have hlength : (h.installObject descriptor baseSlot generation).objects.length =
      h.objects.length := List.length_set
  refine ⟨hlength.symm ▸ hr.size, ?_, ?_, fun c hc => absurd hc (hsettled c),
    fun c hc => absurd hc (hsettled c)⟩
  · show g ≤ (h.generations.set baseSlot generation).getD slot 0
    rw [getD_set]
    split
    · next hslot =>
      have hreached : g ≤ h.generationAt baseSlot := hslot.1 ▸ hr.reached
      exact hreached.trans hgeneration.le
    · exact hr.reached
  · rw [hlength]
    exact List.length_set.trans hr.lengths

theorem Heap.Reached.relocated {oldSlot requiredWidth : ℕ} (hr : h.Reached n slot g)
    (hobjects : serials h'.objects = serials
      (((h.resize (h.objects.length + requiredWidth)).objects.set oldSlot none).set
        h.objects.length (some o)))
    (hgenerations : h'.generations =
      (h.resize (h.objects.length + requiredWidth)).generations.set h.objects.length generation)
    (hphase : ∀ c, h'.phase = .compacting c → h.phase = .compacting c) : h'.Reached n slot g := by
  have hrs := hr.resize (h.objects.length + requiredWidth)
  have hnew : h.generations.getD h.objects.length 0 = 0 :=
    List.getD_eq_default _ _ hr.lengths.le
  have hlength := congrArg List.length hobjects
  simp only [serials, List.length_map, List.length_set] at hlength
  refine ⟨hlength.symm ▸ hrs.size, ?_, ?_, fun c hc => hr.ordered c (hphase c hc),
    fun c hc entry hentry => ?_⟩
  · show g ≤ h'.generations.getD slot 0
    rw [hgenerations, getD_set]
    split
    · next hslot =>
      -- a slot that did not exist before has not reached any generation
      have hreached : g ≤ h.generations.getD slot 0 := hr.reached
      rw [← hslot.1, hnew] at hreached
      exact hreached.trans (Nat.zero_le _)
    · exact hrs.reached
  · rw [hgenerations, hlength, List.length_set]
    exact hrs.lengths
  · have ha := (hr.pending c (hphase c hc) entry hentry).append
      (h.objects.length + requiredWidth - h.generations.length)
    have hne : h.objects.length ≠ entry.destinationSlot := by
      have hinside := (hr.pending c (hphase c hc) entry hentry).inside
      rw [hr.lengths] at hinside
      omega
    rw [hgenerations]
    refine ⟨?_, ?_, ?_⟩
    · rw [List.length_set]
      exact ha.inside
    · rw [getD_set_ne _ _ _ hne]
      exact ha.stays
    · rw [getD_set_ne _ _ _ hne]
      exact ha.moves

theorem GrowthInvariant.reached : GrowthInvariant (Heap.Reached n slot g) where
  toOwnershipInvariant := .reached
  evict hr hlength _ hgenerations _ _ hplan := hr.keep hlength hgenerations hplan
  opened hr₀ hplan hr hgenerations _ := by
    have hadvances := planIncrementalCompaction_advances hr₀.lengths hplan
    refine ⟨hr.size, hr.reached, hr.lengths, fun c hc => ?_, fun c hc => ?_⟩
    · cases hc
      exact hadvances.ordered
    · cases hc
      show ∀ entry ∈ List.drop 0 _, _
      rw [List.drop_zero]
      exact fun entry hentry => hgenerations ▸ hadvances.entries entry hentry
  moved hr hc hentry _ := hr.moveEntry hc hentry
  reserved hr _ := hr.resize _
  installed descriptor _ _ hr _ hgeneration hphase := hr.installObject descriptor hgeneration hphase
  resize size hr := hr.resize size
  relocated hr _ _ _ _ hobjects hgenerations _ _ hphase := hr.relocated hobjects hgenerations hphase

/-! ## Limits -/

namespace Heap

/-- The slot vector stays within the slot numbers, and every slot has generations left. -/
structure Unspent (h : Heap) : Prop where
  slots : h.objects.length ≤ slotNumbers
  generations : ∀ slot, h.generationAt slot < kMaxGeneration

instance (h : Heap) : Decidable h.Unspent :=
  decidable_of_iff (h.objects.length ≤ slotNumbers ∧ ∀ g ∈ h.generations, g < kMaxGeneration) <| by
    refine ⟨fun hand => ⟨hand.1, fun slot => ?_⟩, fun hu => ⟨hu.slots, fun g hg => ?_⟩⟩
    · by_cases hslot : slot < h.generations.length
      · rw [generationAt, List.getD_eq_getElem _ _ hslot]
        exact hand.2 _ (List.getElem_mem hslot)
      · rw [generationAt, List.getD_eq_default _ _ (Nat.not_lt.mp hslot)]
        decide
    · obtain ⟨slot, hslot, rfl⟩ := List.getElem_of_mem hg
      have hlt := hu.generations slot
      rwa [generationAt, List.getD_eq_getElem _ _ hslot] at hlt

theorem Unspent.within (hu : h.Unspent) : h.Within where
  slots := hu.slots
  generations hex := by
    obtain ⟨slot, hslot⟩ := hex
    exact absurd hslot (hu.generations slot).ne

/-- A reached generation can be any that the slot has. -/
theorem Reached.self (hr : h.Reached n slot g) (slot : ℕ) :
    h.Reached h.objects.length slot (h.generationAt slot) :=
  ⟨le_rfl, le_rfl, hr.lengths, hr.ordered, hr.pending⟩

theorem empty_reached (config : StressConfig) : (Heap.empty config).Reached 0 0 0 :=
  ⟨le_rfl, Nat.zero_le _, rfl, (fun _ hc => nomatch hc), fun _ hc => nomatch hc⟩

/-- What is left of the limits after an action was left before it. -/
theorem Reached.unspent (hr : h.Reached n slot g) (action : Action)
    (hu : (action.after h).Unspent) : h.Unspent where
  slots := (GrowthInvariant.reached.after (hr.self 0) action).size.trans hu.slots
  generations slot :=
    (GrowthInvariant.reached.after (hr.self slot) action).reached.trans_lt (hu.generations slot)

end Heap

end LanguageRuntime.Gc
