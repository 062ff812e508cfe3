import LanguageRuntime.Gc.Invariant

/-!
# Updates in place

A heap in which every object still stands at its slot, under its identifier and with its age
and kind. Identifiers resolve as before, so an update in place has to restore only the clauses
of the invariant about what it wrote.
-/

namespace LanguageRuntime.Gc

open LanguageRuntime LanguageRuntime.Library

/-- The objects of equal age and kind, and with equal bytes if they are strings. -/
structure Object.Kindred (o o' : Object) : Prop where
  generation : o'.generation = o.generation
  kind : o'.payload.kind = o.payload.kind
  bytes : ∀ bytes, o'.payload = .str bytes ↔ o.payload = .str bytes

theorem Object.Kindred.refl (o : Object) : o.Kindred o := ⟨rfl, rfl, fun _ => Iff.rfl⟩

theorem Object.Kindred.isYoung {o o' : Object} (hk : o.Kindred o') : o'.isYoung = o.isYoung := by
  rw [Object.isYoung, hk.generation]
  rfl

theorem Object.Kindred.isOld {o o' : Object} (hk : o.Kindred o') : o'.isOld = o.isOld := by
  rw [Object.isOld, hk.generation]
  rfl

namespace Heap

/-- The destination a running compaction has recorded for an identifier. -/
def forwardedId (h : Heap) (id : ObjectId) : Option ObjectId :=
  match h.phase with
  | .compacting c => c.forwarded id
  | _ => none

theorem resolve_eq_ok_iff {h : Heap} {id : ObjectId} {slot : ℕ} {o : Object} :
    h.resolve id = .ok (slot, o) ↔
      h.lookup id = some o ∧ slot = id.slot ∨
        h.lookup id = none ∧ ∃ destination, h.forwardedId id = some destination ∧
          h.lookup destination = some o ∧ slot = destination.slot := by
  constructor
  · intro hr
    rcases resolve_eq_ok hr with hl | ⟨hl, c, destination, hc, hd, hl', hslot⟩
    · exact .inl hl
    · refine .inr ⟨hl, destination, ?_, hl', hslot⟩
      rw [forwardedId, hc]
      exact hd
  · rintro (⟨hl, rfl⟩ | ⟨hl, destination, hd, hl', rfl⟩)
    · exact resolve_of_lookup hl
    · unfold forwardedId at hd
      unfold resolve
      rw [hl]
      cases hc : h.phase with
      | compacting c =>
        rw [hc] at hd
        simp only [hd, hl']
      | _ =>
        rw [hc] at hd
        exact nomatch hd

/-- Every object of `h` has become one related to it by `R`, at the same slot and under the
same identifiers. -/
structure Updates (R : Object → Object → Prop) (h h' : Heap) : Prop where
  objects : ∀ slot, Option.Rel R (h.objectAt slot) (h'.objectAt slot)
  length : h'.objects.length = h.objects.length
  generations : h'.generations = h.generations
  forwarded : h'.forwardedId = h.forwardedId

section Updates

variable {R : Object → Object → Prop} {h h' : Heap} {id : ObjectId} {slot : ℕ} {o : Object}

theorem Updates.objectAt (hu : Updates R h h') (ho : h.objectAt slot = some o) :
    ∃ o', h'.objectAt slot = some o' ∧ R o o' := by
  have hrel := hu.objects slot
  rw [ho] at hrel
  cases ho' : h'.objectAt slot with
  | none =>
    rw [ho'] at hrel
    exact nomatch hrel
  | some o' =>
    rw [ho'] at hrel
    cases hrel with
    | some hr => exact ⟨o', rfl, hr⟩

theorem Updates.objectAt_symm (hu : Updates R h h') (ho : h'.objectAt slot = some o) :
    ∃ o', h.objectAt slot = some o' ∧ R o' o := by
  have hrel := hu.objects slot
  rw [ho] at hrel
  cases ho' : h.objectAt slot with
  | none =>
    rw [ho'] at hrel
    exact nomatch hrel
  | some o' =>
    rw [ho'] at hrel
    cases hrel with
    | some hr => exact ⟨o', rfl, hr⟩

theorem Updates.generationAt (hu : Updates R h h') (slot : ℕ) :
    h'.generationAt slot = h.generationAt slot := by
  rw [Heap.generationAt, hu.generations]
  rfl

theorem Updates.currentId (hu : Updates R h h') (slot : ℕ) :
    h'.currentId slot = h.currentId slot := by
  rw [Heap.currentId, hu.generationAt]
  rfl

theorem Updates.lookup (hu : Updates R h h') (ho : h.lookup id = some o) :
    ∃ o', h'.lookup id = some o' ∧ R o o' := by
  obtain ⟨hne, hg, hobject⟩ := lookup_eq_some.mp ho
  obtain ⟨o', ho', hr⟩ := hu.objectAt hobject
  exact ⟨o', lookup_eq_some.mpr ⟨hne, (hu.generationAt _).trans hg, ho'⟩, hr⟩

theorem Updates.lookup_symm (hu : Updates R h h') (ho : h'.lookup id = some o) :
    ∃ o', h.lookup id = some o' ∧ R o' o := by
  obtain ⟨hne, hg, hobject⟩ := lookup_eq_some.mp ho
  obtain ⟨o', ho', hr⟩ := hu.objectAt_symm hobject
  exact ⟨o', lookup_eq_some.mpr ⟨hne, (hu.generationAt _).symm.trans hg, ho'⟩, hr⟩

theorem Updates.lookup_none (hu : Updates R h h') (hl : h.lookup id = none) :
    h'.lookup id = none := by
  cases hl' : h'.lookup id with
  | none => rfl
  | some o' =>
    obtain ⟨o, ho, -⟩ := hu.lookup_symm hl'
    exact nomatch hl.symm.trans ho

theorem Updates.resolve (hu : Updates R h h') (hr : h.resolve id = .ok (slot, o)) :
    ∃ o', h'.resolve id = .ok (slot, o') ∧ R o o' := by
  rcases resolve_eq_ok_iff.mp hr with ⟨hl, rfl⟩ | ⟨hl, destination, hd, hl', rfl⟩
  · obtain ⟨o', ho', hro⟩ := hu.lookup hl
    exact ⟨o', resolve_of_lookup ho', hro⟩
  · obtain ⟨o', ho', hro⟩ := hu.lookup hl'
    refine ⟨o', resolve_eq_ok_iff.mpr (.inr ⟨hu.lookup_none hl, destination, ?_, ho', rfl⟩), hro⟩
    rw [hu.forwarded]
    exact hd

theorem Updates.symm (hu : Updates R h h') : Updates (fun o o' => R o' o) h' h where
  objects slot := by
    have hrel := hu.objects slot
    cases ho : h.objectAt slot <;> cases ho' : h'.objectAt slot <;> rw [ho, ho'] at hrel
    · exact .none
    · exact nomatch hrel
    · exact nomatch hrel
    · cases hrel with
      | some hr => exact .some hr
  length := hu.length.symm
  generations := hu.generations.symm
  forwarded := hu.forwarded.symm

theorem Updates.mono {R' : Object → Object → Prop} (hu : Updates R h h')
    (hR : ∀ o o', R o o' → R' o o') : Updates R' h h' where
  objects slot := by
    have hrel := hu.objects slot
    cases ho : h.objectAt slot <;> cases ho' : h'.objectAt slot <;> rw [ho, ho'] at hrel
    · exact .none
    · exact nomatch hrel
    · exact nomatch hrel
    · cases hrel with
      | some hr => exact .some (hR _ _ hr)
  length := hu.length
  generations := hu.generations
  forwarded := hu.forwarded

theorem Updates.trans {S : Object → Object → Prop} {h'' : Heap} (hu : Updates R h h')
    (hu' : Updates S h' h'') : Updates (fun o o'' => ∃ o', R o o' ∧ S o' o'') h h'' where
  objects slot := by
    have hrel := hu.objects slot
    have hrel' := hu'.objects slot
    cases ho : h.objectAt slot with
    | none =>
      cases ho' : h'.objectAt slot with
      | none =>
        rw [ho'] at hrel'
        cases ho'' : h''.objectAt slot with
        | none => exact .none
        | some o'' =>
          rw [ho''] at hrel'
          exact nomatch hrel'
      | some o' =>
        rw [ho, ho'] at hrel
        exact nomatch hrel
    | some o =>
      obtain ⟨o', ho', hr⟩ := hu.objectAt ho
      obtain ⟨o'', ho'', hs⟩ := hu'.objectAt ho'
      rw [ho'']
      exact .some ⟨o', hr, hs⟩
  length := hu'.length.trans hu.length
  generations := hu'.generations.trans hu.generations
  forwarded := hu'.forwarded.trans hu.forwarded

end Updates

/-! ## What identifiers name -/

section Names

variable {R : Object → Object → Prop} {h h' : Heap} {id : ObjectId}

theorem Updates.resolves (hu : Updates R h h') (hr : h.Resolves id) : h'.Resolves id :=
  let ⟨slot, _, hr⟩ := hr
  let ⟨o', ho', _⟩ := hu.resolve hr
  ⟨slot, o', ho'⟩

theorem Updates.valid (hu : Updates R h h') {value : Value} (hv : h.Valid value) :
    h'.Valid value := fun id heq => hu.resolves (hv id heq)

theorem Updates.current (hu : Updates R h h') (hc : h.Current id) : h'.Current id :=
  let ⟨_, ho⟩ := hc
  let ⟨o', ho', _⟩ := hu.lookup ho
  ⟨o', ho'⟩

theorem Updates.namesYoung (hu : Updates Object.Kindred h h') (hy : h'.NamesYoung id) :
    h.NamesYoung id := by
  obtain ⟨slot, o', hr, hyoung⟩ := hy
  obtain ⟨o, ho, hk⟩ := hu.symm.resolve hr
  exact ⟨slot, o, ho, hk.isYoung ▸ hyoung⟩

theorem Updates.stringAt (hu : Updates Object.Kindred h h') {bytes : List UInt8}
    (hb : h.StringAt id bytes) : h'.StringAt id bytes := by
  obtain ⟨o, ho, hp⟩ := hb
  obtain ⟨o', ho', hk⟩ := hu.lookup ho
  exact ⟨o', ho', (hk.bytes bytes).mpr hp⟩

theorem Updates.stringAt_symm (hu : Updates Object.Kindred h h') {bytes : List UInt8}
    (hb : h'.StringAt id bytes) : h.StringAt id bytes := by
  obtain ⟨o', ho', hp⟩ := hb
  obtain ⟨o, ho, hk⟩ := hu.lookup_symm ho'
  exact ⟨o, ho, (hk.bytes bytes).mp hp⟩

theorem Updates.checkedString (hu : Updates Object.Kindred h h') {bytes : List UInt8}
    (hb : h.checkedString id = .ok bytes) : h'.checkedString id = .ok bytes := by
  obtain ⟨slot, o, hr, hp⟩ := checkedString_eq_ok.mp hb
  obtain ⟨o', ho', hk⟩ := hu.resolve hr
  exact checkedString_eq_ok.mpr ⟨slot, o', ho', (hk.bytes bytes).mpr hp⟩

theorem mapObject_id (value : Value) : value.mapObject (fun id => id) = value := by
  cases value <;> rfl

theorem Updates.mapKeyHash (hu : Updates Object.Kindred h h') {key : Value} {hash : UInt64}
    (hh : h.mapKeyHash key = .ok hash) : h'.mapKeyHash key = .ok hash := by
  have hh' : h'.mapKeyHash (key.mapObject fun id => id) = .ok hash :=
    mapKeyHash_mapObject (fun id bytes _ hb => hu.checkedString hb) hh
  rwa [mapObject_id] at hh'

theorem Updates.indexedMap (hu : Updates Object.Kindred h h') {m : MapPayload}
    (hm : h.IndexedMap m) : h'.IndexedMap m where
  capacity := hm.capacity
  index := insertMapEntries_congr
    (List.forall₂_same.mpr fun _ _ _ hh => hu.mapKeyHash hh) hm.index

end Names

/-! ## The clauses an update keeps -/

section Clauses

variable {h h' : Heap}

theorem Storage.updates {R : Object → Object → Prop} (hs : h.Storage) (hu : Updates R h h')
    (hwidth : ∀ o o', R o o' → o'.width = o.width) : h'.Storage where
  size := hu.length ▸ hs.size
  lengths := by rw [hu.generations, hu.length, hs.lengths]
  inside slot o' ho' := by
    obtain ⟨o, ho, hr⟩ := hu.objectAt_symm ho'
    rw [hwidth o o' hr, hu.length]
    exact hs.inside slot o ho
  disjoint slot slot' o₁ o₂ hlt ho₁ ho₂ := by
    obtain ⟨o, ho, hr⟩ := hu.objectAt_symm ho₁
    obtain ⟨o', ho', -⟩ := hu.objectAt_symm ho₂
    rw [hwidth o o₁ hr]
    exact hs.disjoint slot slot' o o' hlt ho ho'
  named slot o' ho' := by
    obtain ⟨o, ho, -⟩ := hu.objectAt_symm ho'
    rw [hu.generationAt]
    exact hs.named slot o ho

theorem IsRegistry.updates {kind : ObjectKind} {registry : List ObjectId}
    (hr : h.IsRegistry kind registry) (hu : Updates Object.Kindred h h') :
    h'.IsRegistry kind registry where
  ordered := hr.ordered
  mem id := by
    rw [hr.mem]
    constructor
    · rintro ⟨o, ho, hkind⟩
      obtain ⟨o', ho', hk⟩ := hu.lookup ho
      exact ⟨o', ho', hk.kind.trans hkind⟩
    · rintro ⟨o', ho', hkind⟩
      obtain ⟨o, ho, hk⟩ := hu.lookup_symm ho'
      exact ⟨o, ho, hk.kind.symm.trans hkind⟩

theorem Interns.updates (hi : h.Interns) (hu : Updates Object.Kindred h h')
    (htable : h'.internTable = h.internTable) : h'.Interns where
  ordered := htable ▸ hi.ordered
  hashed entry hentry := by
    obtain ⟨bytes, hb, hhash⟩ := hi.hashed entry (htable ▸ hentry)
    exact ⟨bytes, hu.stringAt hb, hhash⟩
  distinct a ha b hb bytes hbytes hbytes' :=
    hi.distinct a (htable ▸ ha) b (htable ▸ hb) bytes (hu.stringAt_symm hbytes)
      (hu.stringAt_symm hbytes')

theorem Remembers.updates (hr : h.Remembers) (hu : Updates Eq h h')
    (hset : h'.rememberedSet = h.rememberedSet) : h'.Remembers where
  nodup := hset ▸ hr.nodup
  old id hid := by
    obtain ⟨o, ho, hold⟩ := hr.old id (hset ▸ hid)
    obtain ⟨o', ho', rfl⟩ := hu.lookup ho
    exact ⟨o, ho', hold⟩
  complete slot o' ho' hold id hid hyoung := by
    have hk : Updates Object.Kindred h h' := hu.mono fun o o' heq => heq ▸ .refl o
    obtain ⟨o, ho, rfl⟩ := hu.objectAt_symm ho'
    rw [hset, hu.currentId]
    exact hr.complete slot o ho hold id hid (hk.namesYoung hyoung)

/-- A step that writes no object keeps the invariant, if the roots stay valid and the remembered
set and the intern table stay right. -/
theorem Sound.frame_interns (hs : h.Sound) (hu : Updates Eq h h')
    (hcells : ∀ value ∈ h'.rootCells, h.Valid value)
    (hhandles : ∀ root ∈ h'.handleRoots, h.Valid root.slot) (hremembers : h'.Remembers)
    (hweak : h'.weakRefs = h.weakRefs) (hephemerons : h'.ephemerons = h.ephemerons)
    (hinterns : h'.Interns) : h'.Sound := by
  have hk : Updates Object.Kindred h h' := hu.mono fun o o' heq => heq ▸ .refl o
  refine ⟨hs.storage.updates hu fun o o' heq => heq ▸ rfl, ?_,
    fun value hvalue => hu.valid (hcells value hvalue),
    fun root hroot => hu.valid (hhandles root hroot), hremembers, ?_, ?_, hinterns, ?_⟩
  · intro slot o' ho' value hvalue
    obtain ⟨o, ho, rfl⟩ := hu.objectAt_symm ho'
    exact hu.valid (hs.fields slot o ho value hvalue)
  · rw [hweak]
    exact hs.weakRefs.updates hk
  · rw [hephemerons]
    exact hs.ephemerons.updates hk
  · intro slot o' m ho' hp
    obtain ⟨o, ho, rfl⟩ := hu.objectAt_symm ho'
    exact hk.indexedMap (hs.maps slot o m ho hp)

theorem Sound.frame (hs : h.Sound) (hu : Updates Eq h h')
    (hcells : ∀ value ∈ h'.rootCells, h.Valid value)
    (hhandles : ∀ root ∈ h'.handleRoots, h.Valid root.slot) (hremembers : h'.Remembers)
    (hweak : h'.weakRefs = h.weakRefs) (hephemerons : h'.ephemerons = h.ephemerons)
    (htable : h'.internTable = h.internTable) : h'.Sound := by
  have hk : Updates Object.Kindred h h' := hu.mono fun o o' heq => heq ▸ .refl o
  exact hs.frame_interns hu hcells hhandles hremembers hweak hephemerons
    (hs.interns.updates hk htable)

end Clauses

end Heap

end LanguageRuntime.Gc
