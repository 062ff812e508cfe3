import LanguageRuntime.Gc.StateTheorems
import LanguageRuntime.Library.Ledger

/-!
# The identity of objects

The heap as a ledger of generational slots: who occupies every slot, the generation the slot
has reached and the identifiers issued so far. The serial number of an object is its
identity; the collector changes slots and identifiers but never a serial number.
-/

namespace LanguageRuntime.Gc

open LanguageRuntime LanguageRuntime.Library

/-- The serial numbers of the objects of a slot vector. -/
def serials (objects : List (Option Object)) : List (Option ℕ) :=
  objects.map (Option.map Object.serial)

/-- The ledger of a slot vector, its generations and the identifiers issued. -/
def slotLedger (serials : List (Option ℕ)) (generations : List ℕ) (issued : List (ObjectId × ℕ)) :
    Ledger ℕ where
  occupant slot := serials.getD slot none
  generation slot := generations.getD slot 0
  issued := {p | (⟨p.1.1, p.1.2⟩, p.2) ∈ issued}

def Heap.ledger (h : Heap) : Ledger ℕ := slotLedger (serials h.objects) h.generations h.issued

/-- Writing an object, its generation and its identifier is `Ledger.place`. -/
theorem slotLedger_place {objects : List (Option Object)} {generations : List ℕ} {slot : ℕ}
    (issued : List (ObjectId × ℕ)) (g : ℕ) (o : Object) (hslot : slot < objects.length)
    (hlengths : generations.length = objects.length) :
    slotLedger (serials (objects.set slot (some o))) (generations.set slot g)
        ((⟨slot, g⟩, o.serial) :: issued) =
      (slotLedger (serials objects) generations issued).place slot g o.serial := by
  unfold slotLedger Ledger.place serials
  congr 1
  · funext slot'
    rw [List.map_set, Option.map_some, getD_set, List.length_map]
    by_cases hs : slot' = slot
    · simp [hs, hslot]
    · rw [if_neg fun h => hs h.1.symm, Function.update_of_ne hs]
  · funext slot'
    rw [getD_set, hlengths]
    by_cases hs : slot' = slot
    · simp [hs, hslot]
    · rw [if_neg fun h => hs h.1.symm, Function.update_of_ne hs]
  · ext ⟨⟨s, g'⟩, k⟩
    simp [Set.mem_insert_iff]

/-- More slots do not change the ledger. -/
theorem Heap.ledger_resize (h : Heap) (size : ℕ) : (h.resize size).ledger = h.ledger := by
  unfold Heap.ledger slotLedger
  congr 1
  · funext slot
    simp only [serials, getD_map_option]
    exact congrArg (Option.map Object.serial) (objectAt_resize h size slot)
  · funext slot
    exact generationAt_resize h size slot

/-! ## The invariant -/

/-- An entry of the plan that has not been executed yet: its destination may be issued to its
source. -/
structure IncrementalCompactionEntry.Pending (entry : IncrementalCompactionEntry)
    (sourceIds : List (Option ObjectId)) (generations : List ℕ) : Prop where
  source : sourceIds.getD entry.sourceSlot none = some entry.sourceId
  destination : entry.destinationId.slot = entry.destinationSlot
  inside : entry.destinationSlot < generations.length
  stays : entry.sourceSlot = entry.destinationSlot →
    entry.destinationId = entry.sourceId ∧
      entry.destinationId.generation = generations.getD entry.destinationSlot 0
  moves : entry.sourceSlot ≠ entry.destinationSlot →
    generations.getD entry.destinationSlot 0 < entry.destinationId.generation

/-- The tables of an incremental compaction: the plan has distinct destinations, and what
has been forwarded keeps its owner. -/
structure IncrementalCompaction.IdentitySound (c : IncrementalCompaction)
    (generations : List ℕ) (issued : List (ObjectId × ℕ)) : Prop where
  ordered : c.plan.Pairwise (·.destinationSlot < ·.destinationSlot)
  pending : ∀ entry ∈ c.plan.drop c.cursor, entry.Pending c.sourceIds generations
  forwarded : ∀ slot id destination, c.sourceIds.getD slot none = some id →
    c.forwarding.getD slot none = some destination →
    ∃ k, (id, k) ∈ issued ∧ (destination, k) ∈ issued

/-- Identifiers never change their owner. -/
structure Heap.IdentitySound (h : Heap) : Prop where
  owners : h.ledger.Sound
  fresh : ∀ p ∈ h.issued, p.2 < h.nextSerial
  lengths : h.generations.length = h.objects.length
  compacting : ∀ c, h.phase = .compacting c → c.IdentitySound h.generations h.issued

/-- The invariant, for heaps whose slots have numbers an identifier can hold; the identifiers
`past` have been issued. -/
structure IdentitiesHold (past : List (ObjectId × ℕ)) (h : Heap) : Prop where
  sound : h.objects.length ≤ slotNumbers → h.IdentitySound
  kept : past ⊆ h.issued

/-! ## What the invariant says of lookups -/

namespace Heap

variable {h : Heap}

theorem IdentitySound.issued_currentId (hs : h.IdentitySound) (hsize : h.objects.length ≤ slotNumbers)
    {slot : ℕ} {o : Object} (ho : h.objectAt slot = some o) :
    (h.currentId slot, o.serial) ∈ h.issued := by
  have hslot : slot < slotNumbers := (lt_length_of_objectAt ho).trans_le hsize
  have hoccupant : h.ledger.occupant slot = some o.serial := by
    show (serials h.objects).getD slot none = _
    rw [serials, getD_map_option]
    exact congrArg (Option.map Object.serial) ho
  rw [currentId_eq hslot]
  exact hs.owners.current slot o.serial hoccupant

theorem IdentitySound.issued_of_lookup (hs : h.IdentitySound)
    (hsize : h.objects.length ≤ slotNumbers) {id : ObjectId} {o : Object}
    (ho : h.lookup id = some o) : (id, o.serial) ∈ h.issued := by
  obtain ⟨-, hgeneration, hobject⟩ := lookup_eq_some.mp ho
  have hmem := hs.issued_currentId hsize hobject
  rw [currentId_eq ((lt_length_of_objectAt hobject).trans_le hsize), hgeneration] at hmem
  exact hmem

/-- An identifier that resolves was issued to the object it resolves to. -/
theorem IdentitySound.issued_of_resolve (hs : h.IdentitySound)
    (hsize : h.objects.length ≤ slotNumbers) {id : ObjectId} {slot : ℕ} {o : Object}
    (hr : h.resolve id = .ok (slot, o)) : (id, o.serial) ∈ h.issued := by
  rcases resolve_eq_ok hr with ⟨hl, -⟩ | ⟨-, c, destination, hc, hd, hl, -⟩
  · exact hs.issued_of_lookup hsize hl
  · have hdestination := hs.issued_of_lookup hsize hl
    unfold IncrementalCompaction.forwarded at hd
    split at hd
    · next hsource =>
      obtain ⟨k, hid, hk⟩ := (hs.compacting c hc).forwarded _ _ _ hsource hd
      rwa [← hs.owners.functional (destination.slot, destination.generation) k o.serial hk
        hdestination]
    · exact nomatch hd

end Heap

/-! ## Steps that leave the ledger alone -/

namespace Heap

variable {h h' : Heap}

/-- A step that keeps the plan of a running compaction. -/
def SamePlan (h h' : Heap) : Prop :=
  ∀ c', h'.phase = .compacting c' → ∃ c, h.phase = .compacting c ∧ c'.plan = c.plan ∧
    c'.cursor = c.cursor ∧ c'.forwarding = c.forwarding ∧ c'.sourceIds = c.sourceIds

theorem SamePlan.of_eq (hp : h'.phase = h.phase) : SamePlan h h' := fun c' hc' =>
  ⟨c', hp ▸ hc', rfl, rfl, rfl, rfl⟩

theorem SamePlan.of_not_compacting (hp : ∀ c, h'.phase ≠ .compacting c) : SamePlan h h' :=
  fun c' hc' => absurd hc' (hp c')

end Heap

section Frame

variable {past : List (ObjectId × ℕ)} {h h' : Heap}

/-- Objects may leave, and everything outside the ledger may change. -/
theorem IdentitiesHold.evict (hh : IdentitiesHold past h)
    (hlength : h'.objects.length = h.objects.length)
    (hobjects : ∀ slot k, (serials h'.objects).getD slot none = some k →
      (serials h.objects).getD slot none = some k)
    (hgenerations : h'.generations = h.generations) (hissued : h'.issued = h.issued)
    (hserial : h'.nextSerial = h.nextSerial) (hplan : h.SamePlan h') : IdentitiesHold past h' := by
  refine ⟨fun hsize => ?_, hissued ▸ hh.kept⟩
  have hs := hh.sound (hlength ▸ hsize)
  refine ⟨?_, ?_, ?_, ?_⟩
  · have hl := hs.owners.evict (fun slot => (serials h'.objects).getD slot none) hobjects
    rwa [Heap.ledger, hgenerations, hissued]
  · rw [hissued, hserial]
    exact hs.fresh
  · rw [hgenerations, hlength]
    exact hs.lengths
  · intro c' hc'
    obtain ⟨c, hc, hplan, hcursor, hforwarding, hsourceIds⟩ := hplan c' hc'
    obtain ⟨hordered, hpending, hforwarded⟩ := hs.compacting c hc
    rw [hgenerations, hissued]
    exact ⟨hplan ▸ hordered, by rw [hplan, hcursor, hsourceIds]; exact hpending,
      by rw [hforwarding, hsourceIds]; exact hforwarded⟩

/-- Everything outside the ledger may change. -/
theorem IdentitiesHold.frame (hh : IdentitiesHold past h)
    (hobjects : serials h'.objects = serials h.objects)
    (hgenerations : h'.generations = h.generations) (hissued : h'.issued = h.issued)
    (hserial : h'.nextSerial = h.nextSerial) (hplan : h.SamePlan h') : IdentitiesHold past h' :=
  hh.evict (by simpa [serials] using congrArg List.length hobjects)
    (fun slot k hk => by rwa [hobjects] at hk) hgenerations hissued hserial hplan

end Frame

theorem serials_set_some {objects : List (Option Object)} {slot : ℕ} {o : Object} (o' : Object)
    (ho : objects.getD slot none = some o) (hserial : o'.serial = o.serial) :
    serials (objects.set slot (some o')) = serials objects := by
  have hlt := lt_length_of_getD_eq_some ho
  have hlt' : slot < (serials objects).length := by simpa [serials] using hlt
  have hget : (serials objects)[slot] = some o.serial := by
    simp only [serials, List.getElem_map]
    rw [← List.getD_eq_getElem _ none hlt, ho]
    rfl
  rw [serials, List.map_set, Option.map_some, hserial, ← hget]
  exact List.set_getElem_self _

theorem serials_putObject {h : Heap} {slot : ℕ} {o o' : Object} (ho : h.objectAt slot = some o)
    (hserial : o'.serial = o.serial) :
    serials (h.putObject slot o').objects = serials h.objects :=
  serials_set_some o' ho hserial

@[simp] theorem serials_clearMarks (h : Heap) : serials h.clearMarks.objects = serials h.objects := by
  simp only [serials, Heap.clearMarks, List.map_map]
  congr 1
  funext slot
  cases slot <;> rfl

theorem serials_setPayload (h : Heap) (slot : ℕ) (descriptor : Descriptor) :
    serials (h.setPayload slot descriptor).objects = serials h.objects := by
  unfold Heap.setPayload
  split
  · next o ho => exact serials_putObject ho rfl
  · rfl

end LanguageRuntime.Gc
