import LanguageRuntime.Gc.MapIndexTheorems
import LanguageRuntime.Gc.Identity
import LanguageRuntime.Library.Sliding

/-!
# The representation invariant of the heap

What holds of a heap between any two public operations, in every phase: the storage runs are
disjoint, every stored reference resolves, and the side tables list exactly what they are
meant to list.
-/

namespace LanguageRuntime.Gc

open LanguageRuntime LanguageRuntime.Library

namespace Heap

/-! ## What identifiers name -/

/-- The identifier names an allocated object, directly or through a forwarding. -/
def Resolves (h : Heap) (id : ObjectId) : Prop := ∃ slot o, h.resolve id = .ok (slot, o)

/-- The value is no reference, or a reference that resolves. -/
def Valid (h : Heap) (value : Value) : Prop := ∀ id, value = .object id → h.Resolves id

/-- The identifier is the one its object has now. -/
def Current (h : Heap) (id : ObjectId) : Prop := ∃ o, h.lookup id = some o

/-- The identifier names a young object. -/
def NamesYoung (h : Heap) (id : ObjectId) : Prop :=
  ∃ slot o, h.resolve id = .ok (slot, o) ∧ o.isYoung = true

/-- The identifier is the one a string with these bytes has now. -/
def StringAt (h : Heap) (id : ObjectId) (bytes : List UInt8) : Prop :=
  ∃ o, h.lookup id = some o ∧ o.payload = .str bytes

/-- No object is marked. -/
def Unmarked (h : Heap) : Prop := ∀ slot o, h.objectAt slot = some o → o.marked = false

/-- Some slot has used up its generations. -/
def Exhausted (h : Heap) : Prop := ∃ slot, h.generationAt slot = kMaxGeneration

/-! ## The clauses of the invariant -/

/-- The storage runs lie inside the slot vector and are disjoint, and every base slot has a
generation. -/
structure Storage (h : Heap) : Prop where
  size : h.objects.length ≤ slotNumbers
  lengths : h.generations.length = h.objects.length
  inside : ∀ slot o, h.objectAt slot = some o → slot + o.width ≤ h.objects.length
  disjoint : ∀ slot slot' o o', slot < slot' → h.objectAt slot = some o →
    h.objectAt slot' = some o' → slot + o.width ≤ slot'
  named : ∀ slot o, h.objectAt slot = some o → h.generationAt slot ≠ 0

/-- The remembered set names old objects, each once, and every old object with a strong
reference to a young one. -/
structure Remembers (h : Heap) : Prop where
  nodup : h.rememberedSet.Nodup
  old : ∀ id ∈ h.rememberedSet, ∃ o, h.lookup id = some o ∧ o.isOld = true
  complete : ∀ slot o, h.objectAt slot = some o → o.isOld = true →
    ∀ id, .object id ∈ o.payload.referenceFields → h.NamesYoung id →
      h.currentId slot ∈ h.rememberedSet

/-- A registry lists the objects of a kind, in slot order. -/
structure IsRegistry (h : Heap) (kind : ObjectKind) (registry : List ObjectId) : Prop where
  ordered : registry.Pairwise (·.slot < ·.slot)
  mem : ∀ id, id ∈ registry ↔ ∃ o, h.lookup id = some o ∧ o.payload.kind = kind

/-- The intern table lists strings in slot order, under the hash of their bytes, and no two
with the same bytes. -/
structure Interns (h : Heap) : Prop where
  ordered : h.internTable.Pairwise (·.canonical.slot < ·.canonical.slot)
  hashed : ∀ entry ∈ h.internTable, ∃ bytes, h.StringAt entry.canonical bytes ∧
    entry.contentHash = stringContentHash bytes
  distinct : ∀ a ∈ h.internTable, ∀ b ∈ h.internTable, ∀ bytes,
    h.StringAt a.canonical bytes → h.StringAt b.canonical bytes → a = b

/-- The lookup index of a map is the one its ordered entries give. -/
structure IndexedMap (h : Heap) (m : MapPayload) : Prop where
  capacity : mapLookupIndexCapacity m.entries.length = .ok m.lookupIndex.length
  index : h.insertMapEntries m.entries 0 (List.replicate m.lookupIndex.length 0) =
    .ok m.lookupIndex

/-- What counts as live refers only to what counts as live or is grey. -/
def Traces (h : Heap) (kind : CollectionKind) (grey : List ObjectId) : Prop :=
  ∀ slot o, h.objectAt slot = some o → o.countsAsLive kind = true →
    ∀ id, .object id ∈ o.payload.referenceFields →
      ∀ slot' o', h.resolve id = .ok (slot', o') → o'.countsAsLive kind = true ∨ id ∈ grey

/-- The grey worklist holds current identifiers, and no marked object refers to an object that
is neither marked nor grey. -/
structure TriColour (h : Heap) (worklist : List ObjectId) : Prop where
  grey : ∀ id ∈ worklist, h.Current id
  traces : h.Traces .major worklist

end Heap

/-! ## The tables of an incremental compaction -/

namespace IncrementalCompaction

/-- The slots the shadow of an object takes. -/
def shadowWidth (c : IncrementalCompaction) (slot : ℕ) : ℕ :=
  (c.shadowObjects.getD slot none).elim 0 Object.width

/-- The entry has been executed. -/
def Done (c : IncrementalCompaction) (e : IncrementalCompactionEntry) : Prop :=
  e ∈ c.plan.take c.cursor

instance (c : IncrementalCompaction) (e : IncrementalCompactionEntry) : Decidable (c.Done e) :=
  inferInstanceAs (Decidable (e ∈ c.plan.take c.cursor))

/-- Where the object of an entry is now. -/
def slotOf (c : IncrementalCompaction) (e : IncrementalCompactionEntry) : ℕ :=
  if c.Done e then e.destinationSlot else e.sourceSlot

/-- The identifier of the object of an entry now. -/
def idOf (c : IncrementalCompaction) (e : IncrementalCompactionEntry) : ObjectId :=
  if c.Done e then e.destinationId else e.sourceId

/-- The identifier names the object of the entry: it is its source identifier, or the
destination identifier of an object that has moved. -/
structure Names (c : IncrementalCompaction) (id : ObjectId) (e : IncrementalCompactionEntry) :
    Prop where
  planned : e ∈ c.plan
  named : id = e.sourceId ∨ c.Done e ∧ id = e.destinationId

/-- The source identifier of the object an identifier names. -/
def sourceOf (c : IncrementalCompaction) (id : ObjectId) : ObjectId :=
  if c.sourceIds.getD id.slot none = some id then id
  else ((c.plan.find? fun e => e.destinationId = id).map (·.sourceId)).getD id

/-- The identifier an object has now, from its source identifier. -/
def currentOf (c : IncrementalCompaction) (id : ObjectId) : ObjectId := (c.forwarded id).getD id

end IncrementalCompaction

/-- What the plan says of an entry, in terms of the shadow heap. -/
structure IncrementalCompactionEntry.Planned (e : IncrementalCompactionEntry)
    (c : IncrementalCompaction) : Prop where
  shadow : ∃ o, c.shadowObjects.getD e.sourceSlot none = some o ∧ o.width = e.width
  source : e.sourceId = ⟨e.sourceSlot, c.shadowGenerations.getD e.sourceSlot 0⟩
  named : e.sourceId.generation ≠ 0
  slides : e.destinationSlot = slide c.shadowWidth e.sourceSlot
  destination : e.destinationId.slot = e.destinationSlot
  generation : destinationGeneration e.sourceSlot e.destinationSlot
    (c.shadowGenerations.getD e.destinationSlot 0) = .ok e.destinationId.generation

/-- The object mirrors its shadow: the shadow holds source identifiers where the object holds
any identifiers of the same objects. -/
structure IncrementalCompaction.Mirrors (c : IncrementalCompaction) (o shadow : Object) :
    Prop where
  payload : shadow.payload = (o.forwardFields c.sourceOf).payload
  unmarked : shadow.marked = false

/-- The tables of the phase fit the heap: what the plan has executed is at the destinations,
the rest at the sources, and the shadow is the heap before the phase with the mutations
since. -/
structure IncrementalCompaction.Layout (c : IncrementalCompaction) (h : Heap) : Prop where
  cursor : c.cursor ≤ c.plan.length
  forwardingLength : c.forwarding.length = h.objects.length
  shadowLength : c.shadowObjects.length = h.objects.length
  generationsLength : c.shadowGenerations.length = h.objects.length
  disjoint : DisjointRuns c.shadowWidth
  inside : ∀ slot, c.shadowWidth slot ≠ 0 → slot + c.shadowWidth slot ≤ h.objects.length
  sources : c.plan.Pairwise (·.sourceSlot < ·.sourceSlot)
  planned : ∀ e ∈ c.plan, e.Planned c
  covers : ∀ slot o, c.shadowObjects.getD slot none = some o → ∃ e ∈ c.plan, e.sourceSlot = slot
  sourceIds : ∀ slot id, c.sourceIds.getD slot none = some id ↔
    ∃ e ∈ c.plan, e.sourceSlot = slot ∧ e.sourceId = id
  forwarding : ∀ slot id, c.forwarding.getD slot none = some id ↔
    ∃ e ∈ c.plan, c.Done e ∧ e.sourceSlot = slot ∧ e.destinationId = id
  reached : ∀ e ∈ c.plan, c.Done e → h.generationAt e.destinationSlot = e.destinationId.generation
  kept : ∀ slot, (∀ e ∈ c.plan, c.Done e → e.destinationSlot ≠ slot) →
    h.generationAt slot = c.shadowGenerations.getD slot 0
  objects : ∀ e ∈ c.plan, ∃ o shadow, h.objectAt (c.slotOf e) = some o ∧
    c.shadowObjects.getD e.sourceSlot none = some shadow ∧ c.Mirrors o shadow
  moved : ∀ e ∈ c.plan, c.Done e → ∀ o, h.objectAt e.destinationSlot = some o → o.isOld = true
  occupied : ∀ slot o, h.objectAt slot = some o → ∃ e ∈ c.plan, c.slotOf e = slot
  weakRefs : h.weakRefs = c.shadowWeakRefs.map c.currentOf
  ephemerons : h.ephemerons = c.shadowEphemerons.map c.currentOf
  internTable : h.internTable = c.shadowInternTable.map fun entry =>
    { entry with canonical := c.currentOf entry.canonical }
  /-- The shadow registries hold source identifiers. -/
  shadowIds : ∀ id, id ∈ c.shadowWeakRefs ∨ id ∈ c.shadowEphemerons ∨
    id ∈ c.shadowInternTable.map InternEntry.canonical → ∃ e ∈ c.plan, e.sourceId = id

namespace Heap

/-- What a phase asks of the marks and of its tables. -/
def PhaseSound (h : Heap) : Prop :=
  match h.phase with
  | .idle => h.Unmarked
  | .marking worklist => h.TriColour worklist
  | .compacting c => h.Unmarked ∧ c.Layout h

/-- The clauses of the invariant that do not depend on the phase. -/
structure Sound (h : Heap) : Prop where
  storage : h.Storage
  fields : ∀ slot o, h.objectAt slot = some o → ∀ value ∈ o.payload.allFields, h.Valid value
  cells : ∀ value ∈ h.rootCells, h.Valid value
  handles : ∀ root ∈ h.handleRoots, h.Valid root.slot
  remembers : h.Remembers
  weakRefs : h.IsRegistry .weakRef h.weakRefs
  ephemerons : h.IsRegistry .ephemeron h.ephemerons
  interns : h.Interns
  maps : ∀ slot o m, h.objectAt slot = some o → o.payload = .map m → h.IndexedMap m

/-- The representation invariant. -/
structure Wf (h : Heap) : Prop extends Sound h where
  phase : h.PhaseSound

/-! ## Names -/

section Names

variable {h : Heap} {slot : ℕ} {o : Object} {id : ObjectId}

theorem Storage.lt_slotNumbers (hs : h.Storage) (ho : h.objectAt slot = some o) :
    slot < slotNumbers :=
  (lt_length_of_objectAt ho).trans_le hs.size

theorem Storage.currentId_eq (hs : h.Storage) (ho : h.objectAt slot = some o) :
    h.currentId slot = ⟨slot, h.generationAt slot⟩ :=
  Heap.currentId_eq (hs.lt_slotNumbers ho)

/-- An object is found under its current identifier. -/
theorem Storage.lookup_currentId (hs : h.Storage) (ho : h.objectAt slot = some o) :
    h.lookup (h.currentId slot) = some o := by
  rw [hs.currentId_eq ho]
  exact lookup_eq_some.mpr ⟨hs.named slot o ho, rfl, ho⟩

theorem Storage.resolve_currentId (hs : h.Storage) (ho : h.objectAt slot = some o) :
    h.resolve (h.currentId slot) = .ok (slot, o) := by
  have hr := resolve_of_lookup (hs.lookup_currentId ho)
  rwa [hs.currentId_eq ho] at hr ⊢

theorem objectAt_of_lookup (ho : h.lookup id = some o) : h.objectAt id.slot = some o :=
  (lookup_eq_some.mp ho).2.2

/-- An identifier that is found is the current one of its slot. -/
theorem Storage.currentId_of_lookup (hs : h.Storage) (ho : h.lookup id = some o) :
    h.currentId id.slot = id := by
  obtain ⟨-, hgeneration, hobject⟩ := lookup_eq_some.mp ho
  rw [hs.currentId_eq hobject, hgeneration]

theorem Storage.eq_of_slot_eq (hs : h.Storage) {id' : ObjectId} {o' : Object}
    (ho : h.lookup id = some o) (ho' : h.lookup id' = some o') (heq : id.slot = id'.slot) :
    id = id' := by
  rw [← hs.currentId_of_lookup ho, ← hs.currentId_of_lookup ho', heq]

/-- Two objects share no slot. -/
theorem Storage.not_between (hs : h.Storage) {slot' : ℕ} {o' : Object}
    (ho : h.objectAt slot = some o) (ho' : h.objectAt slot' = some o')
    (hlt : slot < slot') : ¬slot' < slot + o.width :=
  Nat.not_lt.mpr (hs.disjoint slot slot' o o' hlt ho ho')

/-- Outside incremental compaction only current identifiers resolve. -/
theorem lookup_of_resolve (hphase : h.incrementalCompactionActive = false) {slot : ℕ}
    (hr : h.resolve id = .ok (slot, o)) : h.lookup id = some o ∧ slot = id.slot := by
  rcases resolve_eq_ok hr with hl | ⟨-, c, -, hc, -⟩
  · exact hl
  · rw [incrementalCompactionActive, hc] at hphase
    exact nomatch hphase

theorem Current.resolves (hc : h.Current id) : h.Resolves id :=
  let ⟨o, ho⟩ := hc
  ⟨id.slot, o, resolve_of_lookup ho⟩

theorem valid_object : h.Valid (.object id) ↔ h.Resolves id :=
  ⟨fun hv => hv id rfl, fun hr id' heq => Value.object.inj heq ▸ hr⟩

@[simp] theorem valid_nil : h.Valid .nil := nofun

@[simp] theorem valid_int64 (v : Int64) : h.Valid (.int64 v) := nofun

@[simp] theorem valid_bool (b : Bool) : h.Valid (.bool b) := nofun

theorem valid_of_not_isObject {value : Value} (hv : value.isObject = false) : h.Valid value := by
  rintro id rfl
  exact nomatch hv

theorem validateValue_eq_ok {value : Value} :
    h.validateValue value = .ok () ↔ h.Valid value := by
  cases value with
  | object id =>
    rw [validateValue_object, valid_object]
    exact ⟨fun ⟨⟨slot, o⟩, hr⟩ => ⟨slot, o, hr⟩, fun ⟨slot, o, hr⟩ => ⟨(slot, o), hr⟩⟩
  | _ => exact ⟨fun _ => nofun, fun _ => rfl⟩

theorem checkedString_eq_ok {bytes : List UInt8} :
    h.checkedString id = .ok bytes ↔ ∃ slot o, h.resolve id = .ok (slot, o) ∧
      o.payload = .str bytes := by
  unfold checkedString
  rw [bind_eq_ok]
  constructor
  · rintro ⟨⟨slot, o⟩, hr, hb⟩
    refine ⟨slot, o, hr, ?_⟩
    dsimp only at hb
    split at hb
    · next bytes' hp =>
      cases hb
      exact hp
    · exact nomatch hb
  · rintro ⟨slot, o, hr, hp⟩
    refine ⟨(slot, o), hr, ?_⟩
    simp only [hp]
    rfl

end Names

end Heap

end LanguageRuntime.Gc
