import LanguageRuntime.Gc.FinishMarkingTheorems

/-!
# What survives a collection

A collection that starts in an incremental phase first finishes the phase, which is a movement of
its own. Reachability follows a movement that keeps what is reachable, so the two movements
together keep what one collection of the first heap would keep.
-/

namespace LanguageRuntime.Gc

open LanguageRuntime LanguageRuntime.Library

/-! ## References under a movement -/

namespace Payload

section Fields

variable {F : ObjectId → Option ObjectId} {p : Payload}

/-- The strong references of a forwarded payload are the forwarded strong references. -/
theorem Forwards.mem_referenceFields_forward (hF : p.Forwards F) {id' : ObjectId} :
    .object id' ∈ (p.forward F).referenceFields ↔
      ∃ id, .object id ∈ p.referenceFields ∧ F id = some id' := by
  rw [referenceFields_forward, List.mem_map]
  constructor
  · rintro ⟨value, hmem, heq⟩
    cases value with
    | object id =>
      obtain ⟨id'', hid''⟩ := Option.isSome_iff_exists.mp (hF.1 id hmem)
      rw [Value.mapObject_object, hid''] at heq
      cases heq
      exact ⟨id, hmem, hid''⟩
    | _ => cases heq
  · rintro ⟨id, hmem, hid⟩
    exact ⟨.object id, hmem, by rw [Value.mapObject_object, hid, Option.getD_some]⟩

/-- A forwarded payload is an ephemeron between two references exactly when the payload is one
between their origins. -/
theorem Forwards.forward_eq_ephemeron_iff (hF : p.Forwards F) {key' value' : ObjectId} :
    p.forward F = .ephemeron (.object key') (.object value') true ↔
      ∃ key value, p = .ephemeron (.object key) (.object value) true ∧ F key = some key' ∧
        F value = some value' := by
  constructor
  · intro hp
    have hkind : p.kind = .ephemeron := by
      rw [← kind_forward F p, hp]
      rfl
    cases p with
    | ephemeron key value valueIsRef =>
      cases key with
      | object key =>
        cases hkey : F key with
        | none =>
          simp [forward, mapReferenceFields, forwardWeakTarget, forwardEphemeron, hkey] at hp
        | some key'' =>
          cases valueIsRef with
          | false =>
            simp [forward, mapReferenceFields, forwardWeakTarget, forwardEphemeron, hkey] at hp
          | true =>
            cases value with
            | object value =>
              obtain ⟨value'', hvalue⟩ :=
                Option.isSome_iff_exists.mp (hF.2 key value rfl (by rw [hkey]; rfl))
              simp [forward, mapReferenceFields, forwardWeakTarget, forwardEphemeron, hkey,
                hvalue] at hp
              exact ⟨key, value, rfl, by rw [hkey, hp.1], by rw [hvalue, hp.2]⟩
            | _ => simp [forward, mapReferenceFields, forwardWeakTarget, forwardEphemeron, hkey] at hp
      | _ => simp [forward, mapReferenceFields, forwardWeakTarget, forwardEphemeron] at hp
    | _ => cases hkind
  · rintro ⟨key, value, rfl, hkey, hvalue⟩
    simp [forward, mapReferenceFields, forwardWeakTarget, forwardEphemeron, hkey, hvalue]

end Fields

end Payload

namespace Heap

/-- Different objects go to different slots. -/
def KeepsApart (φ : ℕ → Option ObjectId) : Prop :=
  ∀ slot₁ slot₂ id₁ id₂, φ slot₁ = some id₁ → φ slot₂ = some id₂ → id₁.slot = id₂.slot →
    slot₁ = slot₂

section Movement

variable {h h' : Heap} {φ : ℕ → Option ObjectId} {owner key value slot slot' : ℕ}

/-- The object at `slot` moves to `slot'`. -/
def MovesTo (φ : ℕ → Option ObjectId) (slot slot' : ℕ) : Prop :=
  ∃ id, φ slot = some id ∧ id.slot = slot'

theorem KeepsApart.eq (ha : KeepsApart φ) {slot₁ slot₂ : ℕ} (h₁ : MovesTo φ slot₁ slot')
    (h₂ : MovesTo φ slot₂ slot') : slot₁ = slot₂ := by
  obtain ⟨id₁, hid₁, rfl⟩ := h₁
  obtain ⟨id₂, hid₂, heq⟩ := h₂
  exact ha slot₁ slot₂ id₁ id₂ hid₁ hid₂ heq.symm

/-- The identifier of a kept object resolves to the place the object moves to. -/
theorem Relocates.resolve (hr : h.Relocates h' φ) {id id' : ObjectId}
    (hF : h.forwardBy φ id = some id') :
    ∃ slot o o', h.resolve id = .ok (slot, o) ∧ φ slot = some id' ∧
      h'.resolve id' = .ok (id'.slot, o') := by
  obtain ⟨slot, o, o', hres, hid, ho', -⟩ := hr.lookup_forwardBy hF
  exact ⟨slot, o, o', hres, hid, resolve_of_lookup ho'⟩

/-- Strong references follow the objects. -/
theorem Relocates.strongReference (hr : h.Relocates h' φ) (href : h.StrongReference owner slot)
    (howner : (φ owner).isSome = true) :
    ∃ owner' slot', MovesTo φ owner owner' ∧ MovesTo φ slot slot' ∧
      h'.StrongReference owner' slot' := by
  obtain ⟨o, id, target, ho, hmem, hres⟩ := href
  obtain ⟨ownerId, howner⟩ := Option.isSome_iff_exists.mp howner
  obtain ⟨o', ho', hp⟩ := hr.target owner o ownerId ho howner
  have hclosed := hr.closed owner o ho (by rw [howner]; rfl)
  obtain ⟨id', hid'⟩ := Option.isSome_iff_exists.mp (hclosed.1 id hmem)
  obtain ⟨slot₁, o₁, o₁', hres₁, hslot, hres'⟩ := hr.resolve hid'
  rw [hres] at hres₁
  cases hres₁
  refine ⟨ownerId.slot, id'.slot, ⟨ownerId, howner, rfl⟩, ⟨id', hslot, rfl⟩, o', id', o₁',
    objectAt_of_lookup ho', ?_, hres'⟩
  rw [hp, hclosed.mem_referenceFields_forward]
  exact ⟨id, hmem, hid'⟩

/-- Every strong reference of the new heap is one of the old heap. -/
theorem Relocates.strongReference_origin (hr : h.Relocates h' φ) (hst : h'.Storage)
    (href : h'.StrongReference owner slot) :
    ∃ owner₀ slot₀, MovesTo φ owner₀ owner ∧ MovesTo φ slot₀ slot ∧
      h.StrongReference owner₀ slot₀ := by
  obtain ⟨o', id', target', ho', hmem, hres'⟩ := href
  obtain ⟨owner₀, o, ho, howner, hp⟩ := hr.lookup_origin hst (hst.lookup_currentId ho')
  have hclosed := hr.closed owner₀ o ho (by rw [howner]; rfl)
  rw [hp, hclosed.mem_referenceFields_forward] at hmem
  obtain ⟨id, hmem, hid'⟩ := hmem
  obtain ⟨slot₀, o₀, o₀', hres, hslot, hres₀⟩ := hr.resolve hid'
  rw [hres'] at hres₀
  cases hres₀
  refine ⟨owner₀, slot₀, ⟨_, howner, ?_⟩, ⟨id', hslot, rfl⟩, o, id, o₀, ho, hmem, hres⟩
  rw [hst.currentId_eq ho']

/-- Ephemerons whose owner and key are kept follow their objects. -/
theorem Relocates.ephemeronReference (hr : h.Relocates h' φ)
    (href : h.EphemeronReference owner key value) (howner : (φ owner).isSome = true)
    (hkey : (φ key).isSome = true) :
    ∃ owner' key' value', MovesTo φ owner owner' ∧ MovesTo φ key key' ∧ MovesTo φ value value' ∧
      h'.EphemeronReference owner' key' value' := by
  obtain ⟨o, keyId, valueId, ko, vo, ho, hpayload, hkres, hvres⟩ := href
  obtain ⟨ownerId, howner⟩ := Option.isSome_iff_exists.mp howner
  obtain ⟨keyId', hkey⟩ := Option.isSome_iff_exists.mp hkey
  obtain ⟨o', ho', hp⟩ := hr.target owner o ownerId ho howner
  have hclosed := hr.closed owner o ho (by rw [howner]; rfl)
  have hkeyF : h.forwardBy φ keyId = some keyId' := by rw [forwardBy_of_resolve hkres, hkey]
  obtain ⟨valueId', hvalueF⟩ :=
    Option.isSome_iff_exists.mp (hclosed.2 keyId valueId hpayload (by rw [hkeyF]; rfl))
  obtain ⟨key₁, ko₁, ko', hkres₁, hkslot, hkres'⟩ := hr.resolve hkeyF
  obtain ⟨value₁, vo₁, vo', hvres₁, hvslot, hvres'⟩ := hr.resolve hvalueF
  rw [hkres] at hkres₁
  cases hkres₁
  rw [hvres] at hvres₁
  cases hvres₁
  refine ⟨ownerId.slot, keyId'.slot, valueId'.slot, ⟨_, howner, rfl⟩, ⟨_, hkey, rfl⟩,
    ⟨_, hvslot, rfl⟩, o', keyId', valueId', ko', vo', objectAt_of_lookup ho', ?_, hkres', hvres'⟩
  rw [hp, hclosed.forward_eq_ephemeron_iff]
  exact ⟨keyId, valueId, hpayload, hkeyF, hvalueF⟩

/-- Every ephemeron of the new heap is one of the old heap. -/
theorem Relocates.ephemeronReference_origin (hr : h.Relocates h' φ) (hst : h'.Storage)
    (href : h'.EphemeronReference owner key value) :
    ∃ owner₀ key₀ value₀, MovesTo φ owner₀ owner ∧ MovesTo φ key₀ key ∧ MovesTo φ value₀ value ∧
      h.EphemeronReference owner₀ key₀ value₀ := by
  obtain ⟨o', keyId', valueId', ko', vo', ho', hpayload, hkres', hvres'⟩ := href
  obtain ⟨owner₀, o, ho, howner, hp⟩ := hr.lookup_origin hst (hst.lookup_currentId ho')
  have hclosed := hr.closed owner₀ o ho (by rw [howner]; rfl)
  rw [hp, hclosed.forward_eq_ephemeron_iff] at hpayload
  obtain ⟨keyId, valueId, hpayload, hkeyF, hvalueF⟩ := hpayload
  obtain ⟨key₀, ko, ko₁, hkres, hkslot, hkres₁⟩ := hr.resolve hkeyF
  obtain ⟨value₀, vo, vo₁, hvres, hvslot, hvres₁⟩ := hr.resolve hvalueF
  rw [hkres'] at hkres₁
  cases hkres₁
  rw [hvres'] at hvres₁
  cases hvres₁
  refine ⟨owner₀, key₀, value₀, ⟨_, howner, ?_⟩, ⟨_, hkslot, rfl⟩, ⟨_, hvslot, rfl⟩, o, keyId,
    valueId, ko, vo, ho, hpayload, hkres, hvres⟩
  rw [hst.currentId_eq ho']

/-! ## Reachability under a movement -/

theorem MovesTo.unique {slot₁ slot₂ : ℕ} (h₁ : MovesTo φ slot slot₁) (h₂ : MovesTo φ slot slot₂) :
    slot₁ = slot₂ := by
  obtain ⟨id₁, hid₁, rfl⟩ := h₁
  obtain ⟨id₂, hid₂, rfl⟩ := h₂
  rw [hid₁] at hid₂
  cases hid₂
  rfl

theorem MovesTo.isSome (hm : MovesTo φ slot slot') : (φ slot).isSome = true := by
  obtain ⟨id, hid, -⟩ := hm
  rw [hid]
  rfl

/-- What is reachable stays reachable when the movement keeps it. -/
theorem Relocates.live (hr : h.Relocates h' φ) {roots : List Value}
    (hkept : ∀ slot, h.Live .major roots slot → (φ slot).isSome = true)
    (hl : h.Live .major roots slot) :
    ∀ slot', MovesTo φ slot slot' → h'.Live .major (roots.map (h.forwardRoot φ)) slot' := by
  induction hl with
  | @init slot hinit =>
    intro slot' hmove
    rcases hinit with ⟨hno, -⟩ | ⟨id, o, hroot, hres⟩
    · cases hno
    · obtain ⟨id', hid', rfl⟩ := hmove
      have hF : h.forwardBy φ id = some id' := by rw [forwardBy_of_resolve hres, hid']
      obtain ⟨slot₁, o₁, o', -, -, hres'⟩ := hr.resolve hF
      refine .init (.inr ⟨id', o', List.mem_map.mpr ⟨.object id, hroot, ?_⟩, hres'⟩)
      rw [forwardRoot, Value.mapObject_object, hF, Option.getD_some]
  | @edge owner slot hl href ih =>
    intro slot' hmove
    obtain ⟨owner', slot₁, howner, hslot, href'⟩ := hr.strongReference href (hkept owner hl)
    rw [hslot.unique hmove] at href'
    exact .edge (ih owner' howner) href'
  | @gate owner key value hl hk href iho ihk =>
    intro slot' hmove
    obtain ⟨owner', key', value', howner, hkey, hvalue, href'⟩ :=
      hr.ephemeronReference href (hkept owner hl) (hkept key hk)
    rw [hvalue.unique hmove] at href'
    exact .gate (iho owner' howner) (ihk key' hkey) href'

/-- What is reachable in the new heap was reachable in the old one. -/
theorem Relocates.live_origin (hr : h.Relocates h' φ) (hst : h'.Storage) (ha : KeepsApart φ)
    {roots : List Value} (hroots : h.KeepsRoots φ roots)
    (hl : h'.Live .major (roots.map (h.forwardRoot φ)) slot') :
    ∃ slot, MovesTo φ slot slot' ∧ h.Live .major roots slot := by
  induction hl with
  | @init slot' hinit =>
    rcases hinit with ⟨hno, -⟩ | ⟨id', o', hroot, hres'⟩
    · cases hno
    · obtain ⟨value, hvalue, heq⟩ := List.mem_map.mp hroot
      cases value with
      | object id =>
        obtain ⟨id'', hid''⟩ := Option.isSome_iff_exists.mp (hroots _ hvalue id rfl)
        rw [forwardRoot, Value.mapObject_object, hid'', Option.getD_some] at heq
        cases heq
        obtain ⟨slot, o, o₁, hres, hslot, hres₁⟩ := hr.resolve hid''
        rw [hres'] at hres₁
        cases hres₁
        exact ⟨slot, ⟨id', hslot, rfl⟩, .init (.inr ⟨id, o, hvalue, hres⟩)⟩
      | _ => cases heq
  | @edge owner' slot' hl href ih =>
    obtain ⟨owner, howner, hlive⟩ := ih
    obtain ⟨owner₀, slot, howner₀, hslot, href₀⟩ := hr.strongReference_origin hst href
    rw [ha.eq howner₀ howner] at href₀
    exact ⟨slot, hslot, .edge hlive href₀⟩
  | @gate owner' key' value' hl hk href iho ihk =>
    obtain ⟨owner, howner, hlive⟩ := iho
    obtain ⟨key, hkey, hkeyLive⟩ := ihk
    obtain ⟨owner₀, key₀, value, howner₀, hkey₀, hvalue, href₀⟩ :=
      hr.ephemeronReference_origin hst href
    rw [ha.eq howner₀ howner, ha.eq hkey₀ hkey] at href₀
    exact ⟨value, hvalue, .gate hlive hkeyLive href₀⟩

/-- A minor collection of a heap without young objects keeps every object. -/
theorem AllOld.live_minor_iff (hold : h.AllOld) {roots : List Value} :
    h.Live .minor roots slot ↔ ∃ o, h.objectAt slot = some o :=
  ⟨exists_objectAt_of_live, fun ⟨o, ho⟩ => .init (.inl ⟨rfl, o, ho, hold slot o ho⟩)⟩

/-- The roots of the new heap are the forwarded roots. -/
theorem Renames.traceCollectionRoots (hr : h.Renames h' φ) (cells : List Value) :
    h'.traceCollectionRoots (cells.map (h.forwardRoot φ)) =
      (h.traceCollectionRoots cells).map (h.forwardRoot φ) := by
  unfold Heap.traceCollectionRoots
  rw [hr.rootCells, hr.handleRoots, List.map_append, List.map_append, List.map_map, List.map_map]
  rfl

/-! ## What a movement keeps -/

/-- `h'` holds the objects at the `live` slots of `h`, promoted, in their order. -/
structure Retains (live : ℕ → Prop) (h h' : Heap) (φ : ℕ → Option ObjectId) : Prop
    extends Renames h h' φ where
  survivors : ∀ slot, (φ slot).isSome = true ↔ live slot
  moved : ∀ slot o id', h.objectAt slot = some o → φ slot = some id' →
    h'.objectAt id'.slot = some (o.promote.forward (h.forwardBy φ))
  inOrder : ∀ slot₁ slot₂ id₁ id₂, φ slot₁ = some id₁ → φ slot₂ = some id₂ → slot₁ < slot₂ →
    id₁.slot < id₂.slot

/-- `h'` is what a collection that keeps the objects at the `live` slots makes of `h`: they stand
packed from the first slot on, and nothing else is allocated. -/
structure Gathers (live : ℕ → Prop) (h h' : Heap) (φ : ℕ → Option ObjectId) : Prop
    extends Retains live h h' φ where
  packed : ∀ slot' o', h'.objectAt slot' = some o' → ∀ slot < slot', ∃ base o,
    h'.objectAt base = some o ∧ base ≤ slot ∧ slot < base + o.width
  wf : h'.Wf
  allOld : h'.AllOld
  rememberedSet : h'.rememberedSet = []
  phase : h'.phase = .idle

end Movement

section Movements

variable {h h₁ h₂ : Heap} {φ ψ : ℕ → Option ObjectId} {live live₁ : ℕ → Prop}
  {cells : List Value} {kind : CollectionKind} {slot : ℕ}

theorem Retains.keepsApart (hr : Retains live h h₁ φ) : KeepsApart φ := by
  intro slot₁ slot₂ id₁ id₂ hid₁ hid₂ heq
  by_contra hne
  rcases Nat.lt_or_gt_of_ne hne with hlt | hlt
  · have hslots := hr.inOrder slot₁ slot₂ id₁ id₂ hid₁ hid₂ hlt
    omega
  · have hslots := hr.inOrder slot₂ slot₁ id₂ id₁ hid₂ hid₁ hlt
    omega

theorem Collected.gathers (hc : Collected live h h₁ φ) : Gathers live h h₁ φ where
  toRenames := hc.toRenames
  survivors := hc.survivors
  moved := hc.moved
  inOrder := hc.ordered
  packed := hc.packed
  wf := hc.wf
  allOld := hc.allOld
  rememberedSet := hc.rememberedSet
  phase := hc.phase

/-- Finishing a compaction keeps every object. -/
theorem Finished.retains {c : IncrementalCompaction} (hf : Finished c h h₁) (hw : h.Wf)
    (hphase : h.phase = .compacting c) :
    Retains (fun slot => ∃ o, h.objectAt slot = some o) h h₁ c.finalIds where
  toRenames := hf.toRenames
  survivors slot := by
    have hl := (hw.compacting hphase).2
    constructor
    · intro hsome
      obtain ⟨id, hid⟩ := Option.isSome_iff_exists.mp hsome
      obtain ⟨e, he, rfl, -⟩ := IncrementalCompaction.finalIds_eq_some hid
      obtain ⟨o, -, ho, -⟩ := hl.objects e he
      exact ⟨o, ho⟩
    · rintro ⟨o, ho⟩
      obtain ⟨e, he, rfl⟩ := hl.occupied slot o ho
      rw [hl.finalIds_slotOf he]
      rfl
  moved := hf.moved
  inOrder slot₁ slot₂ id₁ id₂ hid₁ hid₂ hlt := by
    have hl := (hw.compacting hphase).2
    obtain ⟨e₁, he₁, rfl, rfl⟩ := IncrementalCompaction.finalIds_eq_some hid₁
    obtain ⟨e₂, he₂, rfl, rfl⟩ := IncrementalCompaction.finalIds_eq_some hid₂
    have hends := hl.destinationSlot_add_le he₁ he₂ ((hl.slotOf_lt_iff he₁ he₂).mp hlt)
    have hpos := hl.width_pos he₁
    rw [(hl.planned e₁ he₁).destination, (hl.planned e₂ he₂).destination]
    omega

/-- A movement and a collection after it are a collection, if both keep the roots. -/
theorem Retains.trans (hr : Retains live h h₁ φ) (hg : Gathers live₁ h₁ h₂ ψ)
    (hkept : h.KeepsRoots φ (h.traceCollectionRoots []))
    (hkept' : h₁.KeepsRoots ψ (h₁.traceCollectionRoots [])) :
    Gathers (fun slot => ∃ slot', MovesTo φ slot slot' ∧ live₁ slot') h h₂ (composeIds φ ψ) where
  toRenames := hr.toRenames.trans hg.toRenames hkept hkept'
  survivors slot := by
    rw [composeIds]
    constructor
    · intro hsome
      obtain ⟨id₂, hid⟩ := Option.isSome_iff_exists.mp hsome
      obtain ⟨id₁, hid₁, hid₂⟩ := Option.bind_eq_some_iff.mp hid
      refine ⟨id₁.slot, ⟨id₁, hid₁, rfl⟩, (hg.survivors id₁.slot).mp ?_⟩
      rw [hid₂]
      rfl
    · rintro ⟨slot', ⟨id₁, hid₁, rfl⟩, hlive⟩
      rw [hid₁, Option.bind_some]
      exact (hg.survivors id₁.slot).mpr hlive
  moved slot o id₂ ho hid := by
    obtain ⟨id₁, hid₁, hid₂⟩ := Option.bind_eq_some_iff.mp hid
    have ho₁ := hr.moved slot o id₁ ho hid₁
    have ho₂ := hg.moved id₁.slot _ id₂ ho₁ hid₂
    obtain ⟨o', ho', hp'⟩ := (hr.toRenames.trans hg.toRenames hkept hkept').relocates.target slot o
      id₂ ho hid
    rw [objectAt_of_lookup ho', Option.some.injEq] at ho₂
    rw [objectAt_of_lookup ho', ho₂]
    refine congrArg some (Object.ext_payload rfl rfl ?_ rfl)
    rw [← ho₂, hp']
    rfl
  inOrder slot slot' id₂ id₂' hid hid' hlt := by
    obtain ⟨id₁, hid₁, hid₂⟩ := Option.bind_eq_some_iff.mp hid
    obtain ⟨id₁', hid₁', hid₂'⟩ := Option.bind_eq_some_iff.mp hid'
    have hlt₁ := hr.inOrder slot slot' id₁ id₁' hid₁ hid₁' hlt
    exact hg.inOrder id₁.slot id₁'.slot id₂ id₂' hid₂ hid₂' hlt₁
  packed := hg.packed
  wf := hg.wf
  allOld := hg.allOld
  rememberedSet := hg.rememberedSet
  phase := hg.phase

theorem Gathers.congr {live' : ℕ → Prop} (hg : Gathers live h h₁ φ)
    (hlive : ∀ slot, live slot ↔ live' slot) : Gathers live' h h₁ φ := by
  have heq : live = live' := funext fun slot => propext (hlive slot)
  rwa [← heq]

/-- What a major collection after a movement keeps is what is reachable before the movement. -/
theorem Retains.live_major_iff (hr : Retains live h h₁ φ) (hst : h₁.Storage)
    (hkeeps : ∀ slot, h.Live .major (h.traceCollectionRoots cells) slot → live slot)
    (hroots : h.KeepsRoots φ (h.traceCollectionRoots cells)) :
    (∃ slot', MovesTo φ slot slot' ∧
      h₁.Live .major (h₁.traceCollectionRoots (cells.map (h.forwardRoot φ))) slot') ↔
        h.Live .major (h.traceCollectionRoots cells) slot := by
  rw [hr.toRenames.traceCollectionRoots]
  have hkept : ∀ slot, h.Live .major (h.traceCollectionRoots cells) slot →
      (φ slot).isSome = true := fun slot hl => (hr.survivors slot).mpr (hkeeps slot hl)
  constructor
  · rintro ⟨slot', hmove, hl⟩
    obtain ⟨slot₀, hmove₀, hl₀⟩ := hr.relocates.live_origin hst hr.keepsApart hroots hl
    rwa [hr.keepsApart.eq hmove hmove₀]
  · intro hl
    obtain ⟨id, hid⟩ := Option.isSome_iff_exists.mp (hkept slot hl)
    exact ⟨id.slot, ⟨id, hid, rfl⟩, hr.relocates.live hkept hl id.slot ⟨id, hid, rfl⟩⟩

/-- What a minor collection keeps after a movement that has promoted every object is what the
movement has kept. -/
theorem Retains.live_minor_iff (hr : Retains live h h₁ φ) (hold : h₁.AllOld)
    (hlive : ∀ slot, live slot → ∃ o, h.objectAt slot = some o) {roots : List Value} :
    (∃ slot', MovesTo φ slot slot' ∧ h₁.Live .minor roots slot') ↔ live slot := by
  constructor
  · rintro ⟨slot', hmove, -⟩
    exact (hr.survivors slot).mp hmove.isSome
  · intro hl
    obtain ⟨id, hid⟩ := Option.isSome_iff_exists.mp ((hr.survivors slot).mpr hl)
    obtain ⟨o, ho⟩ := hlive slot hl
    exact ⟨id.slot, ⟨id, hid, rfl⟩, hold.live_minor_iff.mpr ⟨_, hr.moved slot o id ho hid⟩⟩

/-! ## Collections in every phase -/

/-- The slots of the objects a collection keeps. A phase that is active is finished first: a
marking keeps what is reachable, and a compaction promotes every object. -/
def Kept (h : Heap) (kind : CollectionKind) (roots : List Value) (slot : ℕ) : Prop :=
  match kind, h.phase with
  | .minor, .idle => h.Live .minor roots slot
  | .minor, .compacting _ => ∃ o, h.objectAt slot = some o
  | _, _ => h.Live .major roots slot

/-- The rest of a collection whose phase has been finished by a movement. -/
theorem Retains.wp_collectAtomically (hr : Retains live h h₁ φ) (hw : h₁.Wf)
    (hidle : h₁.phase = .idle) (hroots : h.KeepsRoots φ (h.traceCollectionRoots cells)) :
    wp (collectAtomically kind (cells.map (h.forwardRoot φ)))
      (fun cells' h' => ∃ χ, Gathers (fun slot => ∃ slot', MovesTo φ slot slot' ∧
          h₁.Live kind (h₁.traceCollectionRoots (cells.map (h.forwardRoot φ))) slot') h h' χ ∧
        cells' = cells.map (h.forwardRoot χ))
      StopsExhausted h₁ := by
  have hcells : ∀ value ∈ cells, ∀ id, value = .object id → (h.forwardBy φ id).isSome = true :=
    fun value hvalue => hroots value (by simp [Heap.traceCollectionRoots, hvalue])
  have hnone : h.KeepsRoots φ (h.traceCollectionRoots []) := fun value hvalue =>
    hroots value (List.mem_append_left cells (by simpa [Heap.traceCollectionRoots] using hvalue))
  have hvalid : ∀ value ∈ cells.map (h.forwardRoot φ), h₁.Valid value := by
    intro value' hvalue'
    obtain ⟨value, hvalue, rfl⟩ := List.mem_map.mp hvalue'
    exact hr.valid_forwardRoot (hcells value hvalue)
  refine wp_mono (Heap.wp_collectAtomically hw hidle hvalid) (fun cells' h' hpost => ?_)
    fun e h' he => ⟨he.2.1, he.1.same.exhausted he.2.2⟩
  obtain ⟨ψ, hc, rfl⟩ := hpost
  have hkept' : h₁.KeepsRoots ψ (h₁.traceCollectionRoots (cells.map (h.forwardRoot φ))) :=
    fun value hvalue => hc.survives hvalue (hw.toSound.traceCollectionRoots hvalid value hvalue)
  have hnone' : h₁.KeepsRoots ψ (h₁.traceCollectionRoots []) := fun value hvalue =>
    hkept' value (List.mem_append_left _ (by simpa [Heap.traceCollectionRoots] using hvalue))
  refine ⟨composeIds φ ψ, hr.trans hc.gathers hnone hnone', ?_⟩
  rw [List.map_map]
  refine List.map_congr_left fun value hvalue => ?_
  refine hr.relocates.forwardRoot_composeIds (hcells value hvalue) (hkept' _ ?_)
  refine List.mem_append_right _ (List.mem_map_of_mem hvalue)

/-- A collection that starts in a compaction phase first finishes the compaction. -/
theorem wp_finishIncrementalPhase_compacting {c : IncrementalCompaction} (hw : h.Wf)
    (hphase : h.phase = .compacting c) (hcells : ∀ value ∈ cells, h.Valid value) :
    wp (finishIncrementalPhase cells)
      (fun cells' h' => Finished c h h' ∧ cells' = cells.map (h.forwardRoot c.finalIds))
      (fun _ _ => False) h := by
  have hactive : h.incrementalCompactionActive = true := by
    rw [incrementalCompactionActive, hphase]
  unfold finishIncrementalPhase finishActiveCompaction
  rw [wp_bind, wp_bind, wp_get]
  refine wp_ite (fun _ => ?_) fun hinactive => absurd hactive hinactive
  refine wp_mono (wp_finishIncrementalCompactionImpl hw hphase hcells) (fun cells' h' hpost => ?_)
    fun _ _ he => he
  rw [wp_bind, wp_get]
  refine wp_ite (fun hmarking => ?_) fun _ => hpost
  rw [incrementalMarkingActive, hpost.1.phase] at hmarking
  cases hmarking

/-- A collection in any phase gathers what it keeps, or stops because a slot has used up its
generations. -/
theorem wp_collectImpl_gathers (hw : h.Wf) (hcells : ∀ value ∈ cells, h.Valid value) :
    wp (collectImpl kind cells)
      (fun cells' h' => ∃ φ, Gathers (h.Kept kind (h.traceCollectionRoots cells)) h h' φ ∧
        cells' = cells.map (h.forwardRoot φ))
      StopsExhausted h := by
  have hvalid := hw.toSound.traceCollectionRoots hcells
  cases hphase : h.phase with
  | idle =>
    refine wp_mono (wp_collectImpl_idle kind hw hphase hcells) (fun cells' h' hpost => ?_)
      fun e h' he => ⟨he.2.1, he.1.same.exhausted he.2.2⟩
    obtain ⟨φ, hc, rfl⟩ := hpost
    refine ⟨φ, hc.gathers.congr fun slot => ?_, rfl⟩
    unfold Kept
    rw [hphase]
    cases kind <;> rfl
  | marking worklist =>
    unfold collectImpl
    rw [wp_bind]
    refine wp_mono (wp_finishIncrementalPhase_marking hphase
      (wp_finishIncrementalMarkingImpl hw hphase hcells)) (fun cells₁ h₁ hpost => ?_) fun e h' he => ?_
    swap
    · obtain ⟨⟨hm, -, -⟩, he, hruns⟩ := he
      exact ⟨he, hm.exhausted hruns⟩
    obtain ⟨φ, hc, rfl⟩ := hpost
    have hr := hc.gathers.toRetains
    have hroots : h.KeepsRoots φ (h.traceCollectionRoots cells) := fun value hvalue =>
      hc.survives hvalue (hvalid value hvalue)
    refine wp_mono (hr.wp_collectAtomically hc.wf hc.phase hroots) (fun cells' h' hpost => ?_)
      fun _ _ he => he
    obtain ⟨χ, hg, rfl⟩ := hpost
    refine ⟨χ, hg.congr fun slot => ?_, rfl⟩
    unfold Kept
    rw [hphase]
    cases kind with
    | major => exact hr.live_major_iff hc.wf.storage (fun _ hl => hl) hroots
    | minor => exact hr.live_minor_iff hc.allOld fun slot => exists_objectAt_of_live
  | compacting c =>
    unfold collectImpl
    rw [wp_bind]
    refine wp_mono (wp_finishIncrementalPhase_compacting hw hphase hcells)
      (fun cells₁ h₁ hpost => ?_) fun _ _ he => he.elim
    obtain ⟨hf, rfl⟩ := hpost
    have hr := hf.retains hw hphase
    have hroots : h.KeepsRoots c.finalIds (h.traceCollectionRoots cells) := fun value hvalue =>
      survives_finish hw hphase (hvalid value hvalue)
    refine wp_mono (hr.wp_collectAtomically hf.wf hf.phase hroots) (fun cells' h' hpost => ?_)
      fun _ _ he => he
    obtain ⟨χ, hg, rfl⟩ := hpost
    refine ⟨χ, hg.congr fun slot => ?_, rfl⟩
    unfold Kept
    rw [hphase]
    cases kind with
    | major => exact hr.live_major_iff hf.wf.storage (fun slot => exists_objectAt_of_live) hroots
    | minor => exact hr.live_minor_iff hf.allOld fun _ ho => ho

end Movements

/-- The error a program stops with, and the heap it leaves. -/
def errorOf {α : Type} : EStateM.Result HeapError Heap α → Option (HeapError × Heap)
  | .ok _ _ => none
  | .error e h => some (e, h)

theorem errorOf_eq_some {α : Type} {result : EStateM.Result HeapError Heap α} {e : HeapError}
    {h : Heap} : errorOf result = some (e, h) ↔ result = .error e h := by
  cases result <;> simp [errorOf]

/-! ## Major collections -/

end Heap

end LanguageRuntime.Gc
