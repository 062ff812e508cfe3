import LanguageRuntime.Gc.MoveTheorems

/-!
# Relocations

A relocation gives the objects it keeps new identifiers and forwards every reference to them.
A collection, the growth of a map or a builder, the sweep before an incremental compaction and
its final rewrite are relocations, and a relocation keeps the representation invariant.
-/

namespace LanguageRuntime.Gc

open LanguageRuntime LanguageRuntime.Library

/-- The kinds of object a side table lists. -/
def ObjectKind.isListed : ObjectKind → Bool
  | .weakRef => true
  | .ephemeron => true
  | .str => true
  | _ => false

namespace Heap

/-- The identifiers `φ` gives to listed objects keep their order. -/
def OrdersListed (h : Heap) (φ : ℕ → Option ObjectId) : Prop :=
  ∀ slot₁ slot₂ o₁ o₂ id₁ id₂, h.objectAt slot₁ = some o₁ → h.objectAt slot₂ = some o₂ →
    φ slot₁ = some id₁ → φ slot₂ = some id₂ → o₁.payload.kind.isListed = true →
      o₂.payload.kind.isListed = true → slot₁ < slot₂ → id₁.slot < id₂.slot

theorem OrdersListed.pairwise_filterMap {h : Heap} {φ : ℕ → Option ObjectId}
    (hφ : h.OrdersListed φ) {ids : List ObjectId} (hids : ids.Pairwise (·.slot < ·.slot))
    (hlisted : ∀ id ∈ ids, ∃ o, h.lookup id = some o ∧ o.payload.kind.isListed = true) :
    (ids.filterMap (h.forwardBy φ)).Pairwise (·.slot < ·.slot) := by
  rw [List.pairwise_filterMap]
  refine hids.imp_of_mem fun {id₁ id₂} h₁ h₂ hlt id₁' hid₁' id₂' hid₂' => ?_
  obtain ⟨o₁, ho₁, hl₁⟩ := hlisted id₁ h₁
  obtain ⟨o₂, ho₂, hl₂⟩ := hlisted id₂ h₂
  rw [forwardBy_of_resolve (resolve_of_lookup ho₁)] at hid₁'
  rw [forwardBy_of_resolve (resolve_of_lookup ho₂)] at hid₂'
  exact hφ _ _ o₁ o₂ id₁' id₂' (objectAt_of_lookup ho₁) (objectAt_of_lookup ho₂) hid₁' hid₂'
    hl₁ hl₂ hlt

theorem IsRegistry.listed {h : Heap} {kind : ObjectKind} {registry : List ObjectId}
    (hr : h.IsRegistry kind registry) (hkind : kind.isListed = true) :
    ∀ id ∈ registry, ∃ o, h.lookup id = some o ∧ o.payload.kind.isListed = true := by
  intro id hid
  obtain ⟨o, ho, hk⟩ := (hr.mem id).mp hid
  exact ⟨o, ho, hk ▸ hkind⟩

theorem Interns.listed {h : Heap} (hi : h.Interns) {entry : InternEntry}
    (hentry : entry ∈ h.internTable) :
    ∃ o, h.lookup entry.canonical = some o ∧ o.payload.kind.isListed = true := by
  obtain ⟨bytes, ⟨o, ho, hp⟩, -⟩ := hi.hashed entry hentry
  exact ⟨o, ho, by rw [hp]; rfl⟩

/-- The intern table after a movement. -/
def forwardInternTable (h : Heap) (φ : ℕ → Option ObjectId) : List InternEntry :=
  h.internTable.filterMap fun entry => (h.forwardBy φ entry.canonical).map
    fun canonical => { entry with canonical := canonical }

theorem OrdersListed.pairwise_forwardInternTable {h : Heap} {φ : ℕ → Option ObjectId}
    (hφ : h.OrdersListed φ) (hi : h.Interns) :
    (h.forwardInternTable φ).Pairwise (·.canonical.slot < ·.canonical.slot) := by
  have hids : (h.internTable.map InternEntry.canonical).Pairwise (·.slot < ·.slot) :=
    List.pairwise_map.mpr hi.ordered
  have hforwarded := hφ.pairwise_filterMap hids fun id hid => by
    obtain ⟨entry, hentry, rfl⟩ := List.mem_map.mp hid
    exact hi.listed hentry
  have hmap : ((h.forwardInternTable φ).map InternEntry.canonical).Pairwise (·.slot < ·.slot) := by
    rw [forwardInternTable, List.map_filterMap]
    rw [List.filterMap_map] at hforwarded
    convert hforwarded using 2
    rw [Option.map_map]
    exact Option.map_id'
  rwa [List.pairwise_map] at hmap

/-- `h'` holds the objects of `h` that `φ` gives an identifier, under that identifier and with
their fields forwarded. -/
structure Relocates (h h' : Heap) (φ : ℕ → Option ObjectId) : Prop where
  target : ∀ slot o id', h.objectAt slot = some o → φ slot = some id' →
    ∃ o', h'.lookup id' = some o' ∧ o'.payload = o.payload.forward (h.forwardBy φ)
  origin : ∀ slot' o', h'.objectAt slot' = some o' →
    ∃ slot o id', h.objectAt slot = some o ∧ φ slot = some id' ∧ id'.slot = slot'
  ordered : h.OrdersListed φ
  closed : ∀ slot o, h.objectAt slot = some o → (φ slot).isSome = true →
    o.payload.Forwards (h.forwardBy φ)

section Relocates

variable {h h' : Heap} {φ : ℕ → Option ObjectId} {id id' : ObjectId}

/-- Every object of the new heap is the image of one of the old heap. -/
theorem Relocates.lookup_origin (hr : h.Relocates h' φ) (hst : h'.Storage) {o' : Object}
    (ho' : h'.lookup id' = some o') : ∃ slot o, h.objectAt slot = some o ∧ φ slot = some id' ∧
      o'.payload = o.payload.forward (h.forwardBy φ) := by
  obtain ⟨slot, o, id'', ho, hφ, hslot⟩ := hr.origin id'.slot o' (objectAt_of_lookup ho')
  obtain ⟨o'', ho'', hp⟩ := hr.target slot o id'' ho hφ
  obtain rfl := hst.eq_of_slot_eq ho'' ho' hslot
  rw [ho'] at ho''
  cases ho''
  exact ⟨slot, o, ho, hφ, hp⟩

theorem Relocates.lookup_forwardBy (hr : h.Relocates h' φ) (hF : h.forwardBy φ id = some id') :
    ∃ slot o o', h.resolve id = .ok (slot, o) ∧ φ slot = some id' ∧ h'.lookup id' = some o' ∧
      o'.payload = o.payload.forward (h.forwardBy φ) := by
  unfold forwardBy at hF
  cases hres : h.resolve id with
  | error e =>
    rw [hres] at hF
    exact nomatch hF
  | ok found =>
    obtain ⟨slot, o⟩ := found
    rw [hres] at hF
    obtain ⟨o', ho', hp⟩ := hr.target slot o id' (objectAt_of_resolve hres) hF
    exact ⟨slot, o, o', rfl, hF, ho', hp⟩

theorem Relocates.current (hr : h.Relocates h' φ) (hF : h.forwardBy φ id = some id') :
    h'.Current id' :=
  let ⟨_, _, o', _, _, ho', _⟩ := hr.lookup_forwardBy hF
  ⟨o', ho'⟩

/-- A root whose object is kept is valid once it is forwarded. -/
theorem Relocates.valid (hr : h.Relocates h' φ) {value : Value}
    (hkept : ∀ id, value = .object id → (h.forwardBy φ id).isSome = true) :
    h'.Valid (value.mapObject fun id => (h.forwardBy φ id).getD id) := by
  cases value with
  | object id =>
    obtain ⟨id', hid'⟩ := Option.isSome_iff_exists.mp (hkept id rfl)
    rw [Value.mapObject_object, hid', Option.getD_some, valid_object]
    exact (hr.current hid').resolves
  | _ => exact valid_of_not_isObject rfl

/-- The references of the new heap are current. -/
theorem Relocates.current_fields (hr : h.Relocates h' φ) (hst : h'.Storage) {slot' : ℕ}
    {o' : Object} (ho' : h'.objectAt slot' = some o')
    (hid : .object id' ∈ o'.payload.allFields) : h'.Current id' := by
  obtain ⟨slot, o, ho, hφ, hp⟩ := hr.lookup_origin hst (hst.lookup_currentId ho')
  have hclosed := hr.closed slot o ho (by rw [hφ]; rfl)
  rw [hp] at hid
  obtain ⟨id, -, hF⟩ := Payload.mem_allFields_forward hclosed o.shape hid
  exact hr.current hF

theorem Relocates.valid_fields (hr : h.Relocates h' φ) (hst : h'.Storage) {slot' : ℕ}
    {o' : Object} (ho' : h'.objectAt slot' = some o') :
    ∀ value ∈ o'.payload.allFields, h'.Valid value := by
  rintro value hvalue id' rfl
  exact (hr.current_fields hst ho' hvalue).resolves

/-- Strings keep their bytes. -/
theorem Relocates.checkedString (hr : h.Relocates h' φ) (hF : h.forwardBy φ id = some id')
    {bytes : List UInt8} (hb : h.checkedString id = .ok bytes) :
    h'.checkedString id' = .ok bytes := by
  obtain ⟨slot, o, hres, hp⟩ := checkedString_eq_ok.mp hb
  obtain ⟨slot', o₁, o', hres', -, ho', hp'⟩ := hr.lookup_forwardBy hF
  rw [hres] at hres'
  cases hres'
  refine checkedString_eq_ok.mpr ⟨id'.slot, o', resolve_of_lookup ho', ?_⟩
  rw [hp', hp]
  rfl

/-- The scalar keys of a map are no references. -/
theorem mapEntry_key {m : MapPayload} (hshape : (Payload.map m).DescriptorShape) {entry : MapEntry}
    (hentry : entry ∈ m.entries) :
    (m.keyIsRef = true → entry.key.isObject = true) ∧
      (m.keyIsRef = false → entry.key.isScalar = true) := by
  have hnone : mapEntryError m.keyIsRef m.valueIsRef entry = none :=
    List.findSome?_eq_none_iff.mp hshape entry hentry
  unfold mapEntryError at hnone
  cases hk : m.keyIsRef <;> cases hkey : entry.key <;> simp_all [Value.isScalar]

theorem Relocates.indexedMap (hr : h.Relocates h' φ) {slot : ℕ} {o : Object} {m : MapPayload}
    (ho : h.objectAt slot = some o) (hp : o.payload = .map m) (hφ : (φ slot).isSome = true)
    (hm : h.IndexedMap m) : h'.IndexedMap (m.forward (h.forwardBy φ)) where
  capacity := by
    rw [MapPayload.forward, List.length_map]
    exact hm.capacity
  index := by
    refine insertMapEntries_congr ?_ hm.index
    rw [MapPayload.forward]
    rw [List.forall₂_map_right_iff, List.forall₂_same]
    intro entry hentry hash hhash
    have hkey := mapEntry_key (hp ▸ o.shape) hentry
    unfold MapEntry.mapReferenceFields
    cases hisRef : m.keyIsRef with
    | true =>
      refine mapKeyHash_mapObject (fun id bytes heq hb => ?_) hhash
      have hmem : .object id ∈ o.payload.referenceFields := by
        rw [hp]
        refine List.mem_flatMap.mpr ⟨entry, hentry, ?_⟩
        simp [MapEntry.referenceFields, hisRef, heq]
      obtain ⟨id', hid'⟩ := Option.isSome_iff_exists.mp ((hr.closed slot o ho hφ).1 id hmem)
      rw [hid', Option.getD_some]
      exact hr.checkedString hid' hb
    | false =>
      have hscalar := hkey.2 hisRef
      cases hvalue : entry.key with
      | object id =>
        rw [hvalue] at hscalar
        cases hscalar
      | _ =>
        rw [hvalue] at hhash
        exact hhash

/-! ## The side tables -/

theorem Relocates.isRegistry (hr : h.Relocates h' φ) (hs : h.Storage) (hst : h'.Storage)
    {kind : ObjectKind} {registry : List ObjectId} (hkind : kind.isListed = true)
    (hreg : h.IsRegistry kind registry) :
    h'.IsRegistry kind (registry.filterMap (h.forwardBy φ)) where
  ordered := hr.ordered.pairwise_filterMap hreg.ordered (hreg.listed hkind)
  mem id' := by
    rw [List.mem_filterMap]
    constructor
    · rintro ⟨id, hid, hF⟩
      obtain ⟨o, ho, hk⟩ := (hreg.mem id).mp hid
      obtain ⟨slot, o₁, o', hres, -, ho', hp⟩ := hr.lookup_forwardBy hF
      rw [resolve_of_lookup ho] at hres
      cases hres
      exact ⟨o', ho', by rw [hp, Payload.kind_forward, hk]⟩
    · rintro ⟨o', ho', hk⟩
      obtain ⟨slot, o, ho, hφ, hp⟩ := hr.lookup_origin hst ho'
      refine ⟨h.currentId slot, (hreg.mem _).mpr ⟨o, hs.lookup_currentId ho, ?_⟩, ?_⟩
      · rw [← hk, hp, Payload.kind_forward]
      · rw [forwardBy_of_resolve (hs.resolve_currentId ho), hφ]

theorem Relocates.stringAt_iff (hr : h.Relocates h' φ) (hF : h.forwardBy φ id = some id')
    (hid : h.Current id) {bytes : List UInt8} : h'.StringAt id' bytes ↔ h.StringAt id bytes := by
  obtain ⟨o, ho⟩ := hid
  obtain ⟨slot, o₁, o', hres, -, ho', hp⟩ := hr.lookup_forwardBy hF
  rw [resolve_of_lookup ho] at hres
  cases hres
  constructor
  · rintro ⟨o'', ho'', hb⟩
    rw [ho'] at ho''
    cases ho''
    exact ⟨o, ho, (Payload.forward_eq_str_iff _).mp (hp ▸ hb)⟩
  · rintro ⟨o'', ho'', hb⟩
    rw [ho] at ho''
    cases ho''
    exact ⟨o', ho', hp.trans ((Payload.forward_eq_str_iff _).mpr hb)⟩

theorem mem_forwardInternTable {entry' : InternEntry} :
    entry' ∈ h.forwardInternTable φ ↔ ∃ entry ∈ h.internTable,
      h.forwardBy φ entry.canonical = some entry'.canonical ∧
        entry'.contentHash = entry.contentHash := by
  rw [forwardInternTable, List.mem_filterMap]
  constructor
  · rintro ⟨entry, hentry, heq⟩
    obtain ⟨canonical, hF, rfl⟩ := Option.map_eq_some_iff.mp heq
    exact ⟨entry, hentry, hF, rfl⟩
  · rintro ⟨entry, hentry, hF, hhash⟩
    refine ⟨entry, hentry, Option.map_eq_some_iff.mpr ⟨_, hF, ?_⟩⟩
    rw [← hhash]

theorem Relocates.interns (hr : h.Relocates h' φ) (hi : h.Interns)
    (htable : h'.internTable = h.forwardInternTable φ) : h'.Interns where
  ordered := htable ▸ hr.ordered.pairwise_forwardInternTable hi
  hashed entry' hentry' := by
    rw [htable] at hentry'
    obtain ⟨entry, hentry, hF, hhash⟩ := mem_forwardInternTable.mp hentry'
    obtain ⟨bytes, hb, hhash'⟩ := hi.hashed entry hentry
    obtain ⟨o, ho, -⟩ := hi.listed hentry
    exact ⟨bytes, (hr.stringAt_iff hF ⟨o, ho⟩).mpr hb, hhash.trans hhash'⟩
  distinct a' ha' b' hb' bytes hba hbb := by
    rw [htable] at ha' hb'
    obtain ⟨a, ha, hFa, hhasha⟩ := mem_forwardInternTable.mp ha'
    obtain ⟨b, hb, hFb, hhashb⟩ := mem_forwardInternTable.mp hb'
    obtain ⟨oa, hoa, -⟩ := hi.listed ha
    obtain ⟨ob, hob, -⟩ := hi.listed hb
    obtain rfl := hi.distinct a ha b hb bytes ((hr.stringAt_iff hFa ⟨oa, hoa⟩).mp hba)
      ((hr.stringAt_iff hFb ⟨ob, hob⟩).mp hbb)
    have hcanonical : a'.canonical = b'.canonical := Option.some.inj (hFa.symm.trans hFb)
    have hhash : a'.contentHash = b'.contentHash := hhasha.trans hhashb.symm
    cases a'
    cases b'
    simp_all

/-- A relocation keeps the invariant. -/
theorem Sound.relocates (hs : h.Sound) (hr : h.Relocates h' φ) (hst : h'.Storage)
    (hcells : ∀ value ∈ h'.rootCells, h'.Valid value)
    (hhandles : ∀ root ∈ h'.handleRoots, h'.Valid root.slot)
    (hremembers : h'.Remembers)
    (hweak : h'.weakRefs = h.weakRefs.filterMap (h.forwardBy φ))
    (hephemerons : h'.ephemerons = h.ephemerons.filterMap (h.forwardBy φ))
    (htable : h'.internTable = h.forwardInternTable φ) : h'.Sound where
  storage := hst
  fields _ _ ho' := hr.valid_fields hst ho'
  cells := hcells
  handles := hhandles
  remembers := hremembers
  weakRefs := hweak ▸ hr.isRegistry hs.storage hst rfl hs.weakRefs
  ephemerons := hephemerons ▸ hr.isRegistry hs.storage hst rfl hs.ephemerons
  interns := hr.interns hs.interns htable
  maps slot' o' m' ho' hp' := by
    obtain ⟨slot, o, ho, hφ, hp⟩ := hr.lookup_origin hst (hst.lookup_currentId ho')
    have hkind : o.payload.kind = .map := by
      rw [← Payload.kind_forward (h.forwardBy φ), ← hp, hp']
      rfl
    cases hpayload : o.payload with
    | map m =>
      rw [hp', hpayload, Payload.forward_map] at hp
      cases hp
      exact hr.indexedMap ho hpayload (by rw [hφ]; rfl) (hs.maps slot o m ho hpayload)
    | _ =>
      rw [hpayload] at hkind
      exact nomatch hkind

end Relocates

end Heap

end LanguageRuntime.Gc
