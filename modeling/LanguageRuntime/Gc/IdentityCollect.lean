import LanguageRuntime.Gc.LedgerTheorems

/-!
# Identities are kept

Collections, allocation and growth preserve `Heap.IdentitiesHold`, whether they return or throw.
-/

namespace LanguageRuntime.Gc

open LanguageRuntime LanguageRuntime.Library Heap

variable {past : List (ObjectId × ℕ)}

/-! ## Atomic compaction -/

/-- The loop of `compact_live_objects` after the slots below `i`: the new slot vector is a
sound ledger of objects that were below `i`, and nothing has happened from the cursor on. -/
structure CompactionResult.IdentitySound (r : CompactionResult) (h : Heap) (i : ℕ) : Prop where
  owners : (slotLedger (serials r.objects) r.generations r.issued).Sound
  fresh : ∀ p ∈ r.issued, p.2 < h.nextSerial
  lengths : r.generations.length = r.objects.length
  length : r.objects.length = h.objects.length
  kept : h.issued ⊆ r.issued
  below : ∀ slot k, (serials r.objects).getD slot none = some k →
    ∃ slot' < i, (serials h.objects).getD slot' none = some k
  beyond : ∀ slot, r.nextLiveSlot ≤ slot →
    (serials r.objects).getD slot none = none ∧
      r.generations.getD slot 0 = h.generations.getD slot 0

theorem occupant_ledger {h : Heap} {slot : ℕ} {o : Object} (ho : h.objectAt slot = some o) :
    (serials h.objects).getD slot none = some o.serial := by
  rw [serials, getD_map_option]
  exact congrArg (Option.map Object.serial) ho

/-- The generation of a destination may be issued to the object that moves there. -/
theorem CompactionResult.IdentitySound.mayIssue {h : Heap} {r : CompactionResult} {i g : ℕ}
    {o : Object} (hr : r.IdentitySound h i) (hh : h.IdentitySound)
    (hsize : h.objects.length ≤ slotNumbers) (ho : h.objectAt i = some o)
    (hg : destinationGeneration i r.nextLiveSlot (r.generations.getD r.nextLiveSlot 0) = .ok g) :
    (slotLedger (serials r.objects) r.generations r.issued).MayIssue r.nextLiveSlot g o.serial := by
  rcases destinationGeneration_eq_ok hg with ⟨-, hlt⟩ | ⟨rfl, rfl⟩
  · exact .inl hlt
  · have hcurrent := hh.issued_currentId hsize ho
    rw [currentId_eq ((lt_length_of_objectAt ho).trans_le hsize)] at hcurrent
    refine .inr ⟨rfl, hr.kept ?_⟩
    rw [(hr.beyond _ le_rfl).2]
    exact hcurrent

theorem CompactionResult.IdentitySound.place {h : Heap} {r : CompactionResult} {i g : ℕ}
    {o : Object} (hr : r.IdentitySound h i) (hh : h.IdentitySound)
    (hsize : h.objects.length ≤ slotNumbers) (ho : h.objectAt i = some o)
    (hcapacity : r.nextLiveSlot + o.width ≤ r.objects.length)
    (hg : destinationGeneration i r.nextLiveSlot (r.generations.getD r.nextLiveSlot 0) = .ok g) :
    (r.place i o g).IdentitySound h (i + 1) := by
  have hnext : r.nextLiveSlot < r.objects.length := by
    have := o.width_pos
    omega
  have hid : makeObjectId r.nextLiveSlot g = ⟨r.nextLiveSlot, g⟩ :=
    makeObjectId_of_lt g (hnext.trans_le (hr.length ▸ hsize))
  have hnew : ∀ slot', slot' ≠ r.nextLiveSlot →
      (serials r.objects).getD slot' none ≠ some o.serial := by
    intro slot' _ hk
    obtain ⟨slot'', hlt, hk''⟩ := hr.below slot' o.serial hk
    exact hlt.ne (hh.owners.unique slot'' i o.serial hk'' (occupant_ledger ho))
  refine ⟨?_, ?_, ?_, ?_, ?_, ?_, ?_⟩
  · have hplace := hr.owners.place (hr.mayIssue hh hsize ho hg) hnew
    have hledger := slotLedger_place r.issued g o.promote hnext hr.lengths
    rw [Object.serial_promote] at hledger
    rw [← hledger] at hplace
    simpa only [CompactionResult.place, hid] using hplace
  · intro p hp
    rcases List.mem_cons.mp hp with rfl | hp
    · exact hh.fresh (h.currentId i, o.serial) (hh.issued_currentId hsize ho)
    · exact hr.fresh p hp
  · simpa [CompactionResult.place] using hr.lengths
  · simpa [CompactionResult.place] using hr.length
  · exact fun p hp => List.mem_cons_of_mem _ (hr.kept hp)
  · intro slot k hk
    simp only [CompactionResult.place, serials, List.map_set, getD_set] at hk
    split at hk
    · cases hk
      exact ⟨i, Nat.lt_succ_self i, occupant_ledger (o := o) ho⟩
    · obtain ⟨slot', hlt, hk'⟩ := hr.below slot k hk
      exact ⟨slot', Nat.lt_succ_of_lt hlt, hk'⟩
  · intro slot hslot
    have hne : r.nextLiveSlot ≠ slot := by
      have := o.width_pos
      simp only [CompactionResult.place] at hslot
      omega
    have hle : r.nextLiveSlot ≤ slot := by
      simp only [CompactionResult.place] at hslot
      omega
    simp only [CompactionResult.place, serials, List.map_set, getD_set_ne _ _ _ hne]
    exact hr.beyond slot hle

theorem compactSlot_identitySound {h : Heap} (kind : CollectionKind) {r : CompactionResult} {i : ℕ}
    (hh : h.IdentitySound) (hsize : h.objects.length ≤ slotNumbers) (hr : r.IdentitySound h i) :
    Yields (h.compactSlot kind r i) (fun r' => r'.IdentitySound h (i + 1)) fun _ => True := by
  have hskip : r.IdentitySound h (i + 1) := { hr with
    below := fun slot k hk => by
      obtain ⟨slot', hlt, hk'⟩ := hr.below slot k hk
      exact ⟨slot', Nat.lt_succ_of_lt hlt, hk'⟩ }
  unfold compactSlot
  split
  · exact hskip
  · next o ho =>
    split
    · exact hskip
    · split
      · trivial
      · next hcapacity =>
        rw [yields_map, yields_iff]
        exact ⟨fun g hg => hr.place hh hsize ho (Nat.not_lt.mp hcapacity) hg, fun _ _ => trivial⟩

theorem compactLiveObjects_identitySound {h : Heap} {kind : CollectionKind} {r : CompactionResult}
    (hh : h.IdentitySound) (hsize : h.objects.length ≤ slotNumbers)
    (hr : h.compactLiveObjects kind = .ok r) : r.IdentitySound h h.objects.length := by
  have hloop : Yields (h.compactLiveObjects kind)
      (fun r => r.IdentitySound h h.objects.length) fun _ => True := by
    refine yields_foldlM_range (P := fun i r => CompactionResult.IdentitySound r h i) ?_
      fun i r _ hr => compactSlot_identitySound kind hh hsize hr
    refine ⟨?_, hh.fresh, ?_, ?_, fun p hp => hp, ?_, ?_⟩
    · have hempty := hh.owners.evict (fun _ => none) fun _ _ hk => nomatch hk
      simpa [slotLedger, Heap.ledger, serials] using hempty
    · simpa using hh.lengths
    · simp
    · intro slot k hk
      simp [serials] at hk
    · intro slot _
      simp [serials]
  exact hloop.of_ok hr

/-- A compaction keeps the number of slots and the identifiers issued before. -/
theorem compactLiveObjects_grows {h : Heap} {kind : CollectionKind} {r : CompactionResult}
    (hr : h.compactLiveObjects kind = .ok r) :
    r.objects.length = h.objects.length ∧ h.issued ⊆ r.issued := by
  have hloop : Yields (h.compactLiveObjects kind)
      (fun r => r.objects.length = h.objects.length ∧ h.issued ⊆ r.issued) fun _ => True := by
    refine yields_foldlM_range
      (P := fun _ (r : CompactionResult) =>
        r.objects.length = h.objects.length ∧ h.issued ⊆ r.issued)
      ⟨by simp, List.Subset.refl _⟩ fun i r _ hr => ?_
    unfold compactSlot
    split
    · exact hr
    · split
      · exact hr
      · split
        · trivial
        · rw [yields_map, yields_iff]
          refine ⟨fun g _ => ⟨?_, ?_⟩, fun _ _ => trivial⟩
          · simpa [CompactionResult.place] using hr.1
          · exact List.Subset.trans hr.2 (List.subset_cons_self ..)
  exact hloop.of_ok hr

/-- Installing the result of a compaction. -/
theorem IdentitiesHold.compacted {h h' : Heap} (hh : IdentitiesHold past h) {kind : CollectionKind}
    {r : CompactionResult} (hr : h.compactLiveObjects kind = .ok r)
    (hobjects : serials h'.objects = serials r.objects)
    (hgenerations : h'.generations = r.generations) (hissued : h'.issued = r.issued)
    (hserial : h'.nextSerial = h.nextSerial) (hphase : h'.phase = .idle) : IdentitiesHold past h' := by
  refine ⟨fun hsize => ?_, hissued ▸ List.Subset.trans hh.kept (compactLiveObjects_grows hr).2⟩
  have hlength : h'.objects.length = r.objects.length := by
    simpa [serials] using congrArg List.length hobjects
  have hsize' : h.objects.length ≤ slotNumbers := by
    rwa [hlength, (compactLiveObjects_grows hr).1] at hsize
  have hsound := compactLiveObjects_identitySound (hh.sound hsize') hsize' hr
  refine ⟨?_, ?_, ?_, ?_⟩
  · rw [Heap.ledger, hobjects, hgenerations, hissued]
    exact hsound.owners
  · rw [hissued, hserial]
    exact hsound.fresh
  · rw [hgenerations, hlength]
    exact hsound.lengths
  · intro c hc
    rw [hphase] at hc
    cases hc

theorem OwnershipInvariant.identities : OwnershipInvariant (IdentitiesHold past) where
  frame := IdentitiesHold.frame
  compacted hh := hh.compacted

/-! ## Opening an incremental compaction -/

/-- The planning loop after the slots below `i`: every entry is pending. -/
structure CompactionPlan.IdentitySound (p : CompactionPlan) (h : Heap) (i : ℕ) : Prop where
  lengths : p.sourceIds.length = h.objects.length
  generations : p.destinationGenerations.length = h.generations.length
  beyond : ∀ slot, p.destinationSlot ≤ slot →
    p.destinationGenerations.getD slot 0 = h.generations.getD slot 0
  ordered : p.plan.Pairwise (·.destinationSlot < ·.destinationSlot)
  below : ∀ entry ∈ p.plan, entry.sourceSlot < i ∧ entry.destinationSlot < p.destinationSlot
  pending : ∀ entry ∈ p.plan, entry.Pending p.sourceIds h.generations

theorem CompactionPlan.IdentitySound.place {h : Heap} {p : CompactionPlan} {i g : ℕ} {o : Object}
    (hp : p.IdentitySound h i) (hh : h.IdentitySound) (hsize : h.objects.length ≤ slotNumbers)
    (ho : h.objectAt i = some o) (hcapacity : p.destinationSlot + o.width ≤ h.objects.length)
    (hg : destinationGeneration i p.destinationSlot
      (p.destinationGenerations.getD p.destinationSlot 0) = .ok g) :
    (p.place (h.currentId i) i o g).IdentitySound h (i + 1) := by
  have hwidth := o.width_pos
  have hi : i < p.sourceIds.length := hp.lengths ▸ lt_length_of_objectAt ho
  have hinside : p.destinationSlot < h.generations.length := by
    rw [hh.lengths]
    omega
  have hid : makeObjectId p.destinationSlot g = ⟨p.destinationSlot, g⟩ :=
    makeObjectId_of_lt g (by omega)
  have hnew : IncrementalCompactionEntry.Pending
      ⟨h.currentId i, i, o.width, makeObjectId p.destinationSlot g, p.destinationSlot⟩
      (p.sourceIds.set i (some (h.currentId i))) h.generations := by
    rw [hp.beyond _ le_rfl] at hg
    refine ⟨getD_set_self _ _ hi, by rw [hid], hinside, fun heq => ?_, fun hne => ?_⟩
    · obtain ⟨hne, -⟩ | ⟨-, rfl⟩ := destinationGeneration_eq_ok hg
      · exact absurd heq hne
      · obtain rfl : i = p.destinationSlot := heq
        exact ⟨rfl, rfl⟩
    · obtain ⟨-, hlt⟩ | ⟨heq, -⟩ := destinationGeneration_eq_ok hg
      · exact hlt
      · exact absurd heq hne
  refine ⟨?_, ?_, ?_, ?_, ?_, ?_⟩
  · simpa [CompactionPlan.place] using hp.lengths
  · simpa [CompactionPlan.place] using hp.generations
  · intro slot hslot
    have hne : p.destinationSlot ≠ slot ∧ p.destinationSlot ≤ slot := by
      simp only [CompactionPlan.place] at hslot
      omega
    simp only [CompactionPlan.place, getD_set_ne _ _ _ hne.1]
    exact hp.beyond slot hne.2
  · refine List.pairwise_append.mpr ⟨hp.ordered, List.pairwise_singleton _ _, ?_⟩
    intro entry hentry entry' hentry'
    rw [List.mem_singleton.mp hentry']
    exact (hp.below entry hentry).2
  · intro entry hentry
    rcases List.mem_append.mp hentry with hentry | hentry
    · obtain ⟨hlt, hlt'⟩ := hp.below entry hentry
      simp only [CompactionPlan.place]
      omega
    · rw [List.mem_singleton.mp hentry]
      simp only [CompactionPlan.place]
      omega
  · intro entry hentry
    rcases List.mem_append.mp hentry with hentry | hentry
    · have hpending := hp.pending entry hentry
      have hne : i ≠ entry.sourceSlot := (hp.below entry hentry).1.ne'
      exact { hpending with
        source := by simpa only [CompactionPlan.place, getD_set_ne _ _ _ hne] using hpending.source }
    · rw [List.mem_singleton.mp hentry]
      exact hnew

theorem planIncrementalCompaction_identitySound {h : Heap} {p : CompactionPlan}
    (hh : h.IdentitySound) (hsize : h.objects.length ≤ slotNumbers)
    (hp : h.planIncrementalCompaction = .ok p) : p.IdentitySound h h.objects.length := by
  have hloop : Yields h.planIncrementalCompaction
      (fun p => p.IdentitySound h h.objects.length) fun _ => True := by
    refine yields_foldlM_range (P := fun i p => CompactionPlan.IdentitySound p h i)
      ⟨by simp, rfl, fun _ _ => rfl, .nil, by simp, by simp⟩ fun i p _ hp => ?_
    have hskip : p.IdentitySound h (i + 1) := { hp with
      below := fun entry hentry => by
        obtain ⟨hlt, hlt'⟩ := hp.below entry hentry
        exact ⟨Nat.lt_succ_of_lt hlt, hlt'⟩ }
    unfold planSlot
    split
    · exact hskip
    · next o ho =>
      split
      · exact hskip
      · split
        · trivial
        · next hcapacity =>
          rw [yields_map, yields_iff]
          exact ⟨fun g hg => hp.place hh hsize ho (Nat.not_lt.mp hcapacity) hg,
            fun _ _ => trivial⟩
  exact hloop.of_ok hp

/-- A plan of the heap opens an incremental compaction on its swept heap. -/
theorem IdentitiesHold.opened {h₀ h : Heap} {planned : CompactionPlan}
    (hh₀ : IdentitiesHold past h₀) (hplan : h₀.planIncrementalCompaction = .ok planned)
    (hh : IdentitiesHold past h) (hgenerations : h.generations = h₀.generations)
    (hlength : h.objects.length = h₀.objects.length) :
    IdentitiesHold past (h.openCompaction planned) := by
  refine ⟨fun (hsize : h.objects.length ≤ slotNumbers) => ?_, hh.kept⟩
  have hsize₀ : h₀.objects.length ≤ slotNumbers := hlength ▸ hsize
  have hsound := planIncrementalCompaction_identitySound (hh₀.sound hsize₀) hsize₀ hplan
  have hh₁ := hh.sound hsize
  refine ⟨hh₁.owners, hh₁.fresh, hh₁.lengths, fun c hc => ?_⟩
  cases hc
  refine ⟨hsound.ordered, ?_, ?_⟩
  · show ∀ entry ∈ planned.plan.drop 0, entry.Pending planned.sourceIds h.generations
    rw [List.drop_zero, hgenerations]
    exact hsound.pending
  · intro slot id destination _ hforwarded
    simp at hforwarded

/-! ## Moving one object -/

theorem drop_eq_cons {α : Type} {l : List α} {i : ℕ} {a : α} (h : l[i]? = some a) :
    l.drop i = a :: l.drop (i + 1) := by
  obtain ⟨hi, rfl⟩ := List.getElem?_eq_some_iff.mp h
  exact List.drop_eq_getElem_cons hi

section MoveEntry

variable {h : Heap} {c : IncrementalCompaction} {entry : IncrementalCompactionEntry} {o : Object}

/-- The slot vector of `moveEntry` before the object arrives at its destination. -/
theorem serials_freed (slot : ℕ) :
    (serials (if entry.sourceSlot = entry.destinationSlot then h.objects
      else h.objects.set entry.sourceSlot none)).getD slot none =
      if entry.sourceSlot ≠ entry.destinationSlot ∧ entry.sourceSlot = slot then none
      else (serials h.objects).getD slot none := by
  by_cases hs : entry.sourceSlot = entry.destinationSlot
  · simp [hs]
  · rw [if_neg hs, serials, List.map_set, Option.map_none, getD_set_default]
    simp [hs, serials]

theorem Heap.IdentitySound.moveEntry_owners (hs : h.IdentitySound)
    (hsize : h.objects.length ≤ slotNumbers) (hp : entry.Pending c.sourceIds h.generations)
    (hr : h.resolve entry.sourceId = .ok (entry.sourceSlot, o)) :
    (h.moveEntry c entry o).ledger.Sound := by
  have hissued := hs.issued_of_resolve hsize hr
  have ho := occupant_ledger (objectAt_of_resolve hr)
  let freed := if entry.sourceSlot = entry.destinationSlot then h.objects
    else h.objects.set entry.sourceSlot none
  have hlengths : h.generations.length = freed.length := by
    rw [hs.lengths]
    simp only [freed]
    split <;> simp
  have hfreed : (slotLedger (serials freed) h.generations h.issued).Sound :=
    hs.owners.evict _ fun slot k hk => by
      rw [serials_freed] at hk
      split at hk
      · exact nomatch hk
      · exact hk
  have hmay : (slotLedger (serials freed) h.generations h.issued).MayIssue
      entry.destinationSlot entry.destinationId.generation o.serial := by
    by_cases heq : entry.sourceSlot = entry.destinationSlot
    · obtain ⟨hid, hgeneration⟩ := hp.stays heq
      rw [← hid] at hissued
      refine .inr ⟨hgeneration, ?_⟩
      rw [← hp.destination]
      exact hissued
    · exact .inl (hp.moves heq)
  -- the object is nowhere else: its source is its destination or has been freed
  have hnew : ∀ slot, slot ≠ entry.destinationSlot →
      (serials freed).getD slot none ≠ some o.serial := by
    intro slot hslot hk
    rw [serials_freed] at hk
    split at hk
    · exact nomatch hk
    · next hcond =>
      have hslot' := hs.owners.unique slot entry.sourceSlot o.serial hk ho
      exact hcond ⟨fun heq => hslot (hslot'.trans heq), hslot'.symm⟩
  have hplace := hfreed.place hmay hnew
  have hledger := slotLedger_place h.issued entry.destinationId.generation o.promote
    (hlengths ▸ hp.inside) hlengths
  rw [Object.serial_promote] at hledger
  rw [← hledger] at hplace
  have hid : entry.destinationId = ⟨entry.destinationSlot, entry.destinationId.generation⟩ := by
    rw [← hp.destination]
  rw [← hid] at hplace
  exact hplace

theorem IdentitiesHold.moveEntry (hh : IdentitiesHold past h) (hc : h.phase = .compacting c)
    (hentry : c.plan[c.cursor]? = some entry)
    (hr : h.resolve entry.sourceId = .ok (entry.sourceSlot, o)) :
    IdentitiesHold past (h.moveEntry c entry o) := by
  refine ⟨fun hsize => ?_, List.Subset.trans hh.kept (List.subset_cons_self ..)⟩
  have hlength : (h.moveEntry c entry o).objects.length = h.objects.length := by
    simp only [Heap.moveEntry, List.length_set]
    split <;> simp
  rw [hlength] at hsize
  have hs := hh.sound hsize
  have hissued := hs.issued_of_resolve hsize hr
  obtain ⟨hordered, hpending, hforwarded⟩ := hs.compacting c hc
  rw [drop_eq_cons hentry] at hpending
  have hp := hpending entry (List.mem_cons_self ..)
  refine ⟨hs.moveEntry_owners hsize hp hr, ?_, ?_, ?_⟩
  · intro p hp
    rcases List.mem_cons.mp hp with rfl | hp
    · exact hs.fresh (entry.sourceId, o.serial) hissued
    · exact hs.fresh p hp
  · rw [hlength]
    simpa [Heap.moveEntry] using hs.lengths
  · intro c' hc'
    cases hc'
    refine ⟨hordered, ?_, ?_⟩
    · intro later hlater
      have hlt : entry.destinationSlot < later.destinationSlot := by
        have hdrop := hordered.sublist (List.drop_sublist c.cursor c.plan)
        rw [drop_eq_cons hentry] at hdrop
        exact (List.pairwise_cons.mp hdrop).1 later hlater
      have hp' := hpending later (List.mem_cons_of_mem _ hlater)
      have hgeneration : (h.moveEntry c entry o).generations.getD later.destinationSlot 0 =
          h.generations.getD later.destinationSlot 0 := getD_set_ne _ _ _ hlt.ne
      refine ⟨hp'.source, hp'.destination, ?_, ?_, ?_⟩
      · simpa [Heap.moveEntry] using hp'.inside
      · rw [hgeneration]
        exact hp'.stays
      · rw [hgeneration]
        exact hp'.moves
    · intro slot id destination hid hdestination
      rw [getD_set] at hdestination
      split at hdestination
      · next hslot =>
        cases hdestination
        rw [← hslot.1, hp.source] at hid
        cases hid
        exact ⟨o.serial, List.mem_cons_of_mem _ hissued, List.mem_cons_self ..⟩
      · obtain ⟨k, hk, hk'⟩ := hforwarded slot id destination hid hdestination
        exact ⟨k, List.mem_cons_of_mem _ hk, List.mem_cons_of_mem _ hk'⟩

end MoveEntry

/-! ## Allocation -/

/-- A pending entry stays pending when the table of generations grows. -/
theorem IncrementalCompactionEntry.Pending.append {entry : IncrementalCompactionEntry}
    {sourceIds : List (Option ObjectId)} {generations : List ℕ}
    (hp : entry.Pending sourceIds generations) (n : ℕ) :
    entry.Pending sourceIds (generations ++ List.replicate n 0) := by
  refine ⟨hp.source, hp.destination, ?_, ?_, ?_⟩
  · rw [List.length_append]
    exact Nat.lt_add_right _ hp.inside
  · rw [getD_append_default]
    exact hp.stays
  · rw [getD_append_default]
    exact hp.moves

/-- More slots do not change the ledger. -/
theorem IdentitiesHold.resize {h : Heap} (hh : IdentitiesHold past h) (size : ℕ) :
    IdentitiesHold past (h.resize size) := by
  refine ⟨fun hsize => ?_, hh.kept⟩
  rw [length_objects_resize] at hsize
  have hs := hh.sound ((le_max_left _ _).trans hsize)
  refine ⟨?_, hs.fresh, ?_, fun c hc => ?_⟩
  · rw [ledger_resize]
    exact hs.owners
  · rw [length_objects_resize, length_generations_resize, hs.lengths]
  · have hsound := hs.compacting c hc
    exact ⟨hsound.ordered, fun entry hentry => (hsound.pending entry hentry).append _,
      hsound.forwarded⟩

/-- A fresh object at a base under a generation above the one the base had. -/
theorem IdentitiesHold.installObject {h : Heap} (hh : IdentitiesHold past h)
    (descriptor : Descriptor) {baseSlot generation : ℕ} (hbase : baseSlot < h.objects.length)
    (hgeneration : h.generationAt baseSlot < generation) (hphase : ∀ c, h.phase ≠ .compacting c) :
    IdentitiesHold past (h.installObject descriptor baseSlot generation) := by
  refine ⟨fun hsize => ?_, List.Subset.trans hh.kept (List.subset_cons_self ..)⟩
  have hlength : (h.installObject descriptor baseSlot generation).objects.length =
      h.objects.length := List.length_set
  rw [hlength] at hsize
  have hs := hh.sound hsize
  have hid : makeObjectId baseSlot generation = ⟨baseSlot, generation⟩ :=
    makeObjectId_of_lt _ (hbase.trans_le hsize)
  refine ⟨?_, ?_, ?_, ?_⟩
  · have hnew : ∀ slot, slot ≠ baseSlot → h.ledger.occupant slot ≠ some h.nextSerial := by
      intro slot _ hk
      exact (hs.fresh _ (hs.owners.current slot _ hk)).ne rfl
    have hplace := hs.owners.place (.inl hgeneration) hnew
    have hledger := slotLedger_place h.issued generation
      ⟨false, .young, descriptor.val, descriptor.property, h.nextSerial⟩ hbase hs.lengths
    rw [← hid] at hledger
    show (slotLedger _ _ _).Sound
    exact hledger.symm ▸ hplace
  · intro p hp
    rcases List.mem_cons.mp hp with rfl | hp
    · exact Nat.lt_succ_self _
    · exact Nat.lt_succ_of_lt (hs.fresh p hp)
  · rw [hlength]
    exact List.length_set.trans hs.lengths
  · intro c hc
    have hphase' := hphase
    simp only [Heap.installObject] at hc
    split at hc
    · cases hc
    · exact absurd hc (hphase c)

/-! ## Growth -/

/-- A relocation frees the old base and places the object behind the last slot. -/
theorem IdentitiesHold.relocated {h h' : Heap} (hh : IdentitiesHold past h) {id : ObjectId}
    {oldSlot g requiredWidth : ℕ} {o : Object} (hr : h.resolve id = .ok (oldSlot, o)) (hg : 0 < g)
    (hlimit : h.objects.length < slotNumbers) (hwidth : 0 < requiredWidth)
    (hobjects : serials h'.objects = serials
      (((h.resize (h.objects.length + requiredWidth)).objects.set oldSlot none).set
        h.objects.length (some o)))
    (hgenerations : h'.generations =
      (h.resize (h.objects.length + requiredWidth)).generations.set h.objects.length g)
    (hissued : h'.issued = (makeObjectId h.objects.length g, o.serial) :: h.issued)
    (hserial : h'.nextSerial = h.nextSerial)
    (hphase : ∀ c, h'.phase = .compacting c → h.phase = .compacting c) : IdentitiesHold past h' := by
  refine ⟨fun hsize => ?_, hissued ▸ List.Subset.trans hh.kept (List.subset_cons_self ..)⟩
  have hs := hh.sound hlimit.le
  have hissued_o := hs.issued_of_resolve hlimit.le hr
  let size := h.objects.length + requiredWidth
  have hlength : h'.objects.length = size := by
    have := congrArg List.length hobjects
    simp only [serials, List.length_map, List.length_set, length_objects_resize] at this
    omega
  have hrs := (hh.resize size).sound (by rw [length_objects_resize]; omega)
  let freed := (h.resize size).objects.set oldSlot none
  have hfreed_get : ∀ slot, (serials freed).getD slot none =
      if oldSlot = slot then none else (serials (h.resize size).objects).getD slot none := by
    intro slot
    simp only [freed, serials, List.map_set, Option.map_none, getD_set_default]
  have hfreed : (slotLedger (serials freed) (h.resize size).generations h.issued).Sound :=
    hrs.owners.evict _ fun slot k hk => by
      rw [hfreed_get] at hk
      split at hk
      · cases hk
      · exact hk
  have hgeneration : (h.resize size).generations.getD h.objects.length 0 = 0 := by
    rw [show (h.resize size).generations.getD h.objects.length 0 =
      h.generations.getD h.objects.length 0 from generationAt_resize h size _]
    exact List.getD_eq_default _ _ hs.lengths.le
  have hnew : ∀ slot, slot ≠ h.objects.length → (serials freed).getD slot none ≠ some o.serial := by
    intro slot _ hk
    rw [hfreed_get] at hk
    split at hk
    · cases hk
    · next hne =>
      refine hne (hrs.owners.unique _ _ _ ?_ hk)
      exact occupant_ledger ((objectAt_resize h size oldSlot).trans (objectAt_of_resolve hr))
  have hplace := hfreed.place (.inl (by simpa only [slotLedger, hgeneration] using hg)) hnew
  have hsize_freed : h.objects.length < freed.length := by
    simp only [freed, List.length_set, length_objects_resize]
    omega
  have hlengths : (h.resize size).generations.length = freed.length := by
    simp only [freed, List.length_set]
    exact hrs.lengths
  have hledger := slotLedger_place h.issued g o hsize_freed hlengths
  rw [← makeObjectId_of_lt g hlimit] at hledger
  refine ⟨?_, ?_, ?_, ?_⟩
  · rw [Heap.ledger, hobjects, hgenerations, hissued]
    exact hledger.symm ▸ hplace
  · rw [hissued, hserial]
    intro p hp
    rcases List.mem_cons.mp hp with rfl | hp
    · exact hs.fresh (id, o.serial) hissued_o
    · exact hs.fresh p hp
  · rw [hgenerations, hlength, List.length_set, length_generations_resize, hs.lengths]
    omega
  · intro c hc
    obtain ⟨hordered, hpending, hforwarded⟩ := hs.compacting c (hphase c hc)
    rw [hgenerations, hissued]
    refine ⟨hordered, fun entry hentry => ?_, fun slot id destination hid hdestination => ?_⟩
    · have hp := (hpending entry hentry).append (size - h.generations.length)
      have hne : h.objects.length ≠ entry.destinationSlot := by
        have := (hpending entry hentry).inside
        rw [hs.lengths] at this
        omega
      refine ⟨hp.source, hp.destination, ?_, ?_, ?_⟩
      · rw [List.length_set]
        exact hp.inside
      · rw [getD_set_ne _ _ _ hne]
        exact hp.stays
      · rw [getD_set_ne _ _ _ hne]
        exact hp.moves
    · obtain ⟨k, hk, hk'⟩ := hforwarded slot id destination hid hdestination
      exact ⟨k, List.mem_cons_of_mem _ hk, List.mem_cons_of_mem _ hk'⟩

theorem GrowthInvariant.identities : GrowthInvariant (IdentitiesHold past) where
  toOwnershipInvariant := .identities
  evict := IdentitiesHold.evict
  opened hh₀ hplan hh := hh₀.opened hplan hh
  moved hh := hh.moveEntry
  reserved hh _ := hh.resize _
  installed descriptor _ _ hh := hh.installObject descriptor
  resize size hh := hh.resize size
  relocated hh := hh.relocated

end LanguageRuntime.Gc
