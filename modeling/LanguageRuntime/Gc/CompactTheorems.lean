import LanguageRuntime.Gc.MarkTheorems
import LanguageRuntime.Library.Sliding

/-!
# Sliding compaction

What `compactLiveObjects` computes: every survivor slides to the number of slots the survivors
below it take, under the generation its new base has reached.
-/

namespace LanguageRuntime.Gc

open LanguageRuntime LanguageRuntime.Library

/-! ## Generations -/

theorem destinationGeneration_error {source destination g : ℕ} {e : HeapError}
    (h : destinationGeneration source destination g = .error e) :
    e = generationExhausted ∧ source ≠ destination ∧ g = kMaxGeneration := by
  unfold destinationGeneration generationForNewBase nextGeneration at h
  split at h
  · next hmoves =>
    split at h
    · exact nomatch h
    · split at h
      · next hmax =>
        cases h
        exact ⟨rfl, hmoves, hmax⟩
      · exact nomatch h
  · exact nomatch h

/-- No object moves to a slot that has used up its generations. -/
theorem not_exhausted_of_destinationGeneration {source destination g g' : ℕ}
    (h : destinationGeneration source destination g = .ok g') (hmoves : source ≠ destination) :
    g ≠ kMaxGeneration := by
  rintro rfl
  rw [destinationGeneration, if_pos hmoves] at h
  exact nomatch h

/-- A destination has a generation if its source has one and stays, or moves to a new base. -/
theorem destinationGeneration_ne_zero {source destination g g' : ℕ}
    (h : destinationGeneration source destination g = .ok g') (hstays : source = destination → g ≠ 0) :
    g' ≠ 0 := by
  rcases destinationGeneration_eq_ok h with ⟨-, hlt⟩ | ⟨heq, rfl⟩
  · omega
  · exact hstays heq

namespace Heap

/-! ## The layout after a compaction -/

/-- The slots the survivor with a base reserves. -/
def survivorWidth (h : Heap) (kind : CollectionKind) (slot : ℕ) : ℕ :=
  match h.objectAt slot with
  | some o => if o.survives kind = true then o.width else 0
  | none => 0

/-- The base slot a survivor moves to. -/
def slideOf (h : Heap) (kind : CollectionKind) : ℕ → ℕ := slide (h.survivorWidth kind)

/-- The slots an object of a set of objects, given by their bases, reserves. -/
noncomputable def liveWidth (h : Heap) (live : ℕ → Prop) (slot : ℕ) : ℕ :=
  open Classical in if live slot then (h.objectAt slot).elim 0 Object.width else 0

/-- An object of the set has to move to a slot that has used up its generations. -/
def RunsOut (h : Heap) (live : ℕ → Prop) : Prop :=
  ∃ slot, live slot ∧ slot ≠ slide (h.liveWidth live) slot ∧
    h.generationAt (slide (h.liveWidth live) slot) = kMaxGeneration

theorem RunsOut.exhausted {h : Heap} {live : ℕ → Prop} (hr : h.RunsOut live) : h.Exhausted :=
  let ⟨_, _, _, hmax⟩ := hr
  ⟨_, hmax⟩

section Slide

variable {h : Heap} {kind : CollectionKind} {slot : ℕ} {o : Object}

theorem survives_eq (kind : CollectionKind) (o : Object) :
    o.survives kind = o.countsAsLive kind := by
  cases kind <;> rfl

theorem survivorWidth_eq_liveWidth (h : Heap) (kind : CollectionKind) :
    h.survivorWidth kind =
      h.liveWidth fun slot => ∃ o, h.objectAt slot = some o ∧ o.countsAsLive kind = true := by
  funext slot
  rw [survivorWidth, liveWidth]
  cases ho : h.objectAt slot with
  | none => simp
  | some o => simp [survives_eq]

theorem survivorWidth_eq (ho : h.objectAt slot = some o) (hs : o.survives kind = true) :
    h.survivorWidth kind slot = o.width := by
  rw [survivorWidth, ho]
  exact if_pos hs

theorem survivorWidth_ne_zero (hne : h.survivorWidth kind slot ≠ 0) :
    ∃ o, h.objectAt slot = some o ∧ o.survives kind = true ∧ o.width = h.survivorWidth kind slot := by
  unfold survivorWidth at hne ⊢
  cases ho : h.objectAt slot with
  | none =>
    rw [ho] at hne
    exact absurd rfl hne
  | some o =>
    rw [ho] at hne
    simp only at hne ⊢
    split at hne
    · next hs => exact ⟨o, rfl, hs, (if_pos hs).symm⟩
    · exact absurd rfl hne

theorem survivorWidth_pos (ho : h.objectAt slot = some o) (hs : o.survives kind = true) :
    h.survivorWidth kind slot ≠ 0 := by
  rw [survivorWidth_eq ho hs]
  exact o.width_pos.ne'

theorem Storage.disjoint_survivors (hst : h.Storage) : DisjointRuns (h.survivorWidth kind) := by
  intro base base' hlt hne hne'
  obtain ⟨o, ho, -, hwidth⟩ := survivorWidth_ne_zero hne
  obtain ⟨o', ho', -, -⟩ := survivorWidth_ne_zero hne'
  rw [← hwidth]
  exact hst.disjoint base base' o o' hlt ho ho'

theorem Storage.slideOf_le (hst : h.Storage) (ho : h.objectAt slot = some o)
    (hs : o.survives kind = true) : h.slideOf kind slot ≤ slot :=
  slide_le hst.disjoint_survivors (survivorWidth_pos ho hs)

/-- The survivors below a slot and the one at it fit into the slot vector. -/
theorem Storage.slideOf_add_le (hst : h.Storage) (ho : h.objectAt slot = some o)
    (hs : o.survives kind = true) : h.slideOf kind slot + o.width ≤ h.objects.length := by
  have hle := hst.slideOf_le ho hs
  have hinside := hst.inside slot o ho
  omega

end Slide

/-- `r` is the compaction of the survivors with a base below `bound`. -/
structure CompactedUpTo (h : Heap) (kind : CollectionKind) (bound : ℕ) (r : CompactionResult) :
    Prop where
  lengths : r.forwarding.length = h.objects.length ∧ r.objects.length = h.objects.length ∧
    r.generations.length = h.generations.length
  next : r.nextLiveSlot = h.slideOf kind bound
  moved : ∀ slot o, slot < bound → h.objectAt slot = some o → o.survives kind = true → ∃ g,
    destinationGeneration slot (h.slideOf kind slot) (h.generationAt (h.slideOf kind slot)) = .ok g ∧
    r.forwarding.getD slot none = some ⟨h.slideOf kind slot, g⟩ ∧
    r.objects.getD (h.slideOf kind slot) none = some o.promote ∧
    r.generations.getD (h.slideOf kind slot) 0 = g
  forwarded : ∀ slot id, r.forwarding.getD slot none = some id →
    slot < bound ∧ ∃ o, h.objectAt slot = some o ∧ o.survives kind = true
  origin : ∀ slot' o', r.objects.getD slot' none = some o' → ∃ slot o, slot < bound ∧
    h.objectAt slot = some o ∧ o.survives kind = true ∧ slot' = h.slideOf kind slot
  others : ∀ slot', (∀ slot o, slot < bound → h.objectAt slot = some o → o.survives kind = true →
    slot' ≠ h.slideOf kind slot) → r.generations.getD slot' 0 = h.generationAt slot'
  promoted : ∀ slot' ∈ r.promotedSlots, ∃ slot o, slot < bound ∧ h.objectAt slot = some o ∧
    o.survives kind = true ∧ slot' = h.slideOf kind slot

section Compact

variable {h : Heap} {kind : CollectionKind} {bound : ℕ} {r : CompactionResult}

/-- A slot without a survivor. -/
theorem CompactedUpTo.skip (hr : h.CompactedUpTo kind bound r)
    (hnone : ∀ o, h.objectAt bound = some o → o.survives kind = false) :
    h.CompactedUpTo kind (bound + 1) r where
  lengths := hr.lengths
  next := by
    have hwidth : h.survivorWidth kind bound = 0 := by
      by_contra hne
      obtain ⟨o, ho, hs, -⟩ := survivorWidth_ne_zero hne
      rw [hnone o ho] at hs
      exact nomatch hs
    rw [hr.next, slideOf, slide_succ, hwidth, Nat.add_zero]
  moved slot o hlt ho hs := by
    refine hr.moved slot o (Nat.lt_of_le_of_ne (Nat.le_of_lt_succ hlt) ?_) ho hs
    rintro rfl
    rw [hnone o ho] at hs
    exact nomatch hs
  forwarded slot id hid := (hr.forwarded slot id hid).imp_left Nat.lt_succ_of_lt
  origin slot' o' ho' := by
    obtain ⟨slot, o, hlt, hrest⟩ := hr.origin slot' o' ho'
    exact ⟨slot, o, Nat.lt_succ_of_lt hlt, hrest⟩
  others slot' hslot' := hr.others slot' fun slot o hlt => hslot' slot o (Nat.lt_succ_of_lt hlt)
  promoted slot' hslot' := by
    obtain ⟨slot, o, hlt, hrest⟩ := hr.promoted slot' hslot'
    exact ⟨slot, o, Nat.lt_succ_of_lt hlt, hrest⟩

/-- Moving the survivor at `bound` to the cursor. -/
theorem CompactedUpTo.place (hr : h.CompactedUpTo kind bound r) (hst : h.Storage) {o : Object}
    {g : ℕ} (ho : h.objectAt bound = some o) (hs : o.survives kind = true)
    (hg : destinationGeneration bound r.nextLiveSlot (r.generations.getD r.nextLiveSlot 0) = .ok g) :
    h.CompactedUpTo kind (bound + 1) (r.place bound o g) := by
  obtain ⟨hforwarding, hobjects, hgenerations⟩ := hr.lengths
  have hbound := lt_length_of_objectAt ho
  have hfits := hst.slideOf_add_le ho hs
  have hpos := o.width_pos
  have hnext : r.nextLiveSlot < h.objects.length := by
    rw [hr.next]
    omega
  -- nothing has been moved to the cursor yet
  have hfresh : ∀ slot o', slot < bound → h.objectAt slot = some o' → o'.survives kind = true →
      r.nextLiveSlot ≠ h.slideOf kind slot := by
    intro slot o' hlt ho' hs'
    rw [hr.next]
    exact (slide_lt hlt (survivorWidth_pos ho' hs')).ne'
  have hid : makeObjectId r.nextLiveSlot g = ⟨h.slideOf kind bound, g⟩ := by
    rw [makeObjectId_of_lt g (hnext.trans_le hst.size), hr.next]
  rw [hr.others _ hfresh] at hg
  refine ⟨⟨?_, ?_, ?_⟩, ?_, ?_, ?_, ?_, ?_, ?_⟩
  · rw [← hforwarding]
    exact List.length_set
  · rw [← hobjects]
    exact List.length_set
  · rw [← hgenerations]
    exact List.length_set
  · show r.nextLiveSlot + o.width = _
    rw [hr.next, slideOf, slide_succ, survivorWidth_eq ho hs]
  · intro slot o' hlt ho' hs'
    by_cases heq : slot = bound
    · subst heq
      rw [ho] at ho'
      cases ho'
      rw [← hr.next]
      refine ⟨g, hg, ?_, ?_, ?_⟩
      · rw [hr.next, ← hid]
        exact getD_set_self _ _ (hforwarding ▸ hbound)
      · exact getD_set_self _ _ (hobjects ▸ hnext)
      · exact getD_set_self _ _ (by rw [hgenerations, hst.lengths]; exact hnext)
    · have hlt' : slot < bound := by omega
      obtain ⟨g', hg', hf, hmoved, hgen⟩ := hr.moved slot o' hlt' ho' hs'
      have hne := hfresh slot o' hlt' ho' hs'
      refine ⟨g', hg', ?_, ?_, ?_⟩
      · rw [← hf]
        exact getD_set_ne _ _ _ (Ne.symm heq)
      · rw [← hmoved]
        exact getD_set_ne _ _ _ hne
      · rw [← hgen]
        exact getD_set_ne _ _ _ hne
  · intro slot id hid'
    simp only [CompactionResult.place, getD_set] at hid'
    split at hid'
    · next heq => exact ⟨heq.1 ▸ Nat.lt_succ_self _, o, heq.1 ▸ ho, hs⟩
    · exact (hr.forwarded slot id hid').imp_left Nat.lt_succ_of_lt
  · intro slot' o' ho'
    simp only [CompactionResult.place, getD_set] at ho'
    split at ho'
    · next heq => exact ⟨bound, o, Nat.lt_succ_self _, ho, hs, by rw [← heq.1, hr.next]⟩
    · obtain ⟨slot, o'', hlt, hrest⟩ := hr.origin slot' o' ho'
      exact ⟨slot, o'', Nat.lt_succ_of_lt hlt, hrest⟩
  · intro slot' hslot'
    have hne : r.nextLiveSlot ≠ slot' := by
      rw [hr.next]
      exact (hslot' bound o (Nat.lt_succ_self _) ho hs).symm
    rw [← hr.others slot' fun slot o' hlt => hslot' slot o' (Nat.lt_succ_of_lt hlt)]
    exact getD_set_ne _ _ _ hne
  · intro slot' hslot'
    have hcases : slot' ∈ r.promotedSlots ∨ slot' = r.nextLiveSlot := by
      simp only [CompactionResult.place] at hslot'
      split at hslot'
      · simpa using hslot'
      · exact .inl hslot'
    rcases hcases with hmem | heq
    · obtain ⟨slot, o', hlt, hrest⟩ := hr.promoted slot' hmem
      exact ⟨slot, o', Nat.lt_succ_of_lt hlt, hrest⟩
    · exact ⟨bound, o, Nat.lt_succ_self _, ho, hs, heq.trans hr.next⟩

/-- A survivor without a generation at its destination. -/
theorem runsOut_of_survivor {slot : ℕ} {o : Object} (ho : h.objectAt slot = some o)
    (hs : o.survives kind = true) (hmoves : slot ≠ h.slideOf kind slot)
    (hmax : h.generationAt (h.slideOf kind slot) = kMaxGeneration) :
    h.RunsOut fun slot => ∃ o, h.objectAt slot = some o ∧ o.countsAsLive kind = true := by
  rw [slideOf, survivorWidth_eq_liveWidth] at hmoves hmax
  exact ⟨slot, ⟨o, ho, survives_eq kind o ▸ hs⟩, hmoves, hmax⟩

/-- One step of the loop compacts one slot more, or runs out of generations. -/
theorem yields_compactSlot (hst : h.Storage) (hr : h.CompactedUpTo kind bound r) :
    Yields (h.compactSlot kind r bound) (h.CompactedUpTo kind (bound + 1))
      fun e => e = generationExhausted ∧
        h.RunsOut fun slot => ∃ o, h.objectAt slot = some o ∧ o.countsAsLive kind = true := by
  unfold compactSlot
  split
  · next hnone => exact hr.skip fun o ho => nomatch hnone.symm.trans ho
  · next o ho =>
    by_cases hs : o.survives kind = true
    · have hfits := hst.slideOf_add_le ho hs
      rw [if_neg (by simp [hs]), if_neg (by rw [hr.lengths.2.1, hr.next]; omega), yields_map,
        yields_iff]
      refine ⟨fun g hg => hr.place hst ho hs hg, fun e he => ?_⟩
      obtain ⟨rfl, hmoves, hmax⟩ := destinationGeneration_error he
      rw [hr.next] at hmoves
      refine ⟨rfl, runsOut_of_survivor ho hs hmoves ?_⟩
      rw [← hmax, hr.others, hr.next]
      intro slot o' hlt ho' hs'
      rw [hr.next]
      exact (slide_lt hlt (survivorWidth_pos ho' hs')).ne'
    · rw [if_pos (by simpa using hs)]
      refine hr.skip fun o' ho' => ?_
      rw [ho] at ho'
      cases ho'
      simpa using hs

/-- A compaction slides every survivor, or runs out of generations. -/
theorem yields_compactLiveObjects (hst : h.Storage) :
    Yields (h.compactLiveObjects kind) (h.CompactedUpTo kind h.objects.length)
      fun e => e = generationExhausted ∧
        h.RunsOut fun slot => ∃ o, h.objectAt slot = some o ∧ o.countsAsLive kind = true := by
  refine yields_foldlM_range (P := fun i r => h.CompactedUpTo kind i r) ?_
    fun i r _ hr => yields_compactSlot hst hr
  refine ⟨⟨by simp, by simp, rfl⟩, rfl, fun _ _ hlt => absurd hlt (Nat.not_lt_zero _), ?_, ?_,
    fun _ _ => rfl, nofun⟩
  · intro slot id hid
    simp at hid
  · intro slot' o' ho'
    simp at ho'

end Compact

end Heap

end LanguageRuntime.Gc
