import LanguageRuntime.Gc.LayoutTheorems
import LanguageRuntime.Gc.MarkPhaseTheorems

/-!
# Stores

A store replaces the payload of one object. It keeps the representation invariant once the
barriers have greyed or remembered what it publishes and the shadow heap has seen it.
-/

namespace LanguageRuntime.Gc

open LanguageRuntime LanguageRuntime.Library

theorem Object.Kindred.withPayload {o : Object} {d : Descriptor}
    (hkind : d.val.kind = o.payload.kind) (hstr : o.payload.kind ≠ .str) :
    o.Kindred (o.withPayload d) where
  generation := rfl
  kind := hkind
  bytes bytes := by
    constructor
    · intro hp
      have hd : d.val = .str bytes := hp
      rw [hd] at hkind
      exact absurd hkind.symm hstr
    · intro hp
      rw [hp] at hstr
      exact absurd rfl hstr

namespace Heap

/-- The object at `slot` may become `width` slots wide. -/
structure Fits (h : Heap) (slot width : ℕ) : Prop where
  inside : slot + width ≤ h.objects.length
  clear : ∀ slot' o', slot < slot' → h.objectAt slot' = some o' → slot + width ≤ slot'

theorem Storage.fits {h : Heap} {slot : ℕ} {o : Object} (hs : h.Storage)
    (ho : h.objectAt slot = some o) : h.Fits slot o.width where
  inside := hs.inside slot o ho
  clear slot' o' hlt ho' := hs.disjoint slot slot' o o' hlt ho ho'

/-- `h'` is `h` with the payload `d` in the object `o` at `slot`, and possibly with another
shadow of it. -/
structure Publishes (h h' : Heap) (slot : ℕ) (o : Object) (d : Descriptor) : Prop where
  objects : h'.objects = h.objects.set slot (some (o.withPayload d))
  generations : h'.generations = h.generations
  forwarded : h'.forwardedId = h.forwardedId
  rootCells : h'.rootCells = h.rootCells
  handleRoots : h'.handleRoots = h.handleRoots
  rememberedSet : h'.rememberedSet = h.rememberedSet
  weakRefs : h'.weakRefs = h.weakRefs
  ephemerons : h'.ephemerons = h.ephemerons
  internTable : h'.internTable = h.internTable
  nextSerial : h'.nextSerial = h.nextSerial

section Publishes

variable {h h' : Heap} {slot slot' : ℕ} {o o' : Object} {d : Descriptor}

theorem publishes_setPayload (ho : h.objectAt slot = some o) :
    h.Publishes (h.setPayload slot d) slot o d where
  objects := by
    rw [setPayload, ho]
    rfl
  generations := by rw [setPayload, ho]; rfl
  forwarded := by rw [setPayload, ho]; rfl
  rootCells := by rw [setPayload, ho]; rfl
  handleRoots := by rw [setPayload, ho]; rfl
  rememberedSet := by rw [setPayload, ho]; rfl
  weakRefs := by rw [setPayload, ho]; rfl
  ephemerons := by rw [setPayload, ho]; rfl
  internTable := by rw [setPayload, ho]; rfl
  nextSerial := by rw [setPayload, ho]; rfl

theorem Publishes.objectAt (hp : h.Publishes h' slot o d) (ho : h.objectAt slot = some o)
    (slot' : ℕ) : h'.objectAt slot' =
      if slot = slot' then some (o.withPayload d) else h.objectAt slot' := by
  have hlt := lt_length_of_objectAt ho
  rw [Heap.objectAt, hp.objects, getD_set]
  by_cases hslot : slot = slot'
  · rw [if_pos ⟨hslot, hslot ▸ hlt⟩, if_pos hslot]
  · rw [if_neg fun hand => hslot hand.1, if_neg hslot]
    rfl

theorem Publishes.objectAt_self (hp : h.Publishes h' slot o d) (ho : h.objectAt slot = some o) :
    h'.objectAt slot = some (o.withPayload d) := by
  rw [hp.objectAt ho, if_pos rfl]

theorem Publishes.objectAt_of_ne (hp : h.Publishes h' slot o d) (ho : h.objectAt slot = some o)
    (hne : slot ≠ slot') : h'.objectAt slot' = h.objectAt slot' := by
  rw [hp.objectAt ho, if_neg hne]

theorem Publishes.updates {R : Object → Object → Prop} (hp : h.Publishes h' slot o d)
    (ho : h.objectAt slot = some o) (hrefl : ∀ o', R o' o') (hR : R o (o.withPayload d)) :
    Updates R h h' where
  objects slot' := by
    rw [hp.objectAt ho]
    split
    · next hslot =>
      rw [← hslot, ho]
      exact .some hR
    · cases h.objectAt slot' with
      | none => exact .none
      | some o' => exact .some (hrefl o')
  length := by rw [hp.objects, List.length_set]
  generations := hp.generations
  forwarded := hp.forwarded

theorem Publishes.kindred (hp : h.Publishes h' slot o d) (ho : h.objectAt slot = some o)
    (hkind : d.val.kind = o.payload.kind) (hstr : o.payload.kind ≠ .str) :
    Updates Object.Kindred h h' :=
  hp.updates ho Object.Kindred.refl (.withPayload hkind hstr)

/-- A published object that fits keeps the storage layout. -/
theorem Publishes.storage (hp : h.Publishes h' slot o d) (ho : h.objectAt slot = some o)
    (hs : h.Storage) (hfits : h.Fits slot d.val.storageSlotCount) : h'.Storage := by
  have hlength : h'.objects.length = h.objects.length := by rw [hp.objects, List.length_set]
  have hgeneration : ∀ s, h'.generationAt s = h.generationAt s := fun s => by
    rw [Heap.generationAt, hp.generations]
    rfl
  have hwidth : (o.withPayload d).width = d.val.storageSlotCount := rfl
  refine ⟨hlength ▸ hs.size, ?_, ?_, ?_, ?_⟩
  · rw [hp.generations, hlength, hs.lengths]
  · intro s o₁ ho₁
    rw [hp.objectAt ho] at ho₁
    rw [hlength]
    split at ho₁
    · next hslot =>
      cases ho₁
      rw [hwidth, ← hslot]
      exact hfits.inside
    · exact hs.inside s o₁ ho₁
  · intro s s' o₁ o₂ hlt ho₁ ho₂
    rw [hp.objectAt ho] at ho₁ ho₂
    have hold : ∃ o₂', h.objectAt s' = some o₂' := by
      split at ho₂
      · next hslot => exact ⟨o, hslot ▸ ho⟩
      · exact ⟨o₂, ho₂⟩
    obtain ⟨o₂', ho₂'⟩ := hold
    split at ho₁
    · next hslot =>
      cases ho₁
      rw [hwidth, ← hslot]
      exact hfits.clear s' o₂' (hslot ▸ hlt) ho₂'
    · exact hs.disjoint s s' o₁ o₂' hlt ho₁ ho₂'
  · intro s o₁ ho₁
    rw [hgeneration]
    rw [hp.objectAt ho] at ho₁
    split at ho₁
    · next hslot => exact hslot ▸ hs.named slot o ho
    · exact hs.named s o₁ ho₁

/-- A store keeps the clauses that do not depend on the phase, if what it publishes resolves and
is remembered where it has to be. -/
theorem Publishes.sound (hp : h.Publishes h' slot o d) (ho : h.objectAt slot = some o)
    (hs : h.Sound) (hkind : d.val.kind = o.payload.kind) (hstr : o.payload.kind ≠ .str)
    (hfits : h.Fits slot d.val.storageSlotCount)
    (hfields : ∀ value ∈ d.val.allFields, h.Valid value)
    (hremembers : o.isOld = true → ∀ id, .object id ∈ d.val.referenceFields → h.NamesYoung id →
      h.currentId slot ∈ h.rememberedSet)
    (hmap : ∀ m, d.val = .map m → h.IndexedMap m) : h'.Sound := by
  have hu := hp.kindred ho hkind hstr
  refine ⟨hp.storage ho hs.storage hfits, ?_, ?_, ?_, ⟨?_, ?_, ?_⟩, ?_, ?_, ?_, ?_⟩
  · intro s o₁ ho₁ value hvalue
    rw [hp.objectAt ho] at ho₁
    split at ho₁
    · cases ho₁
      exact hu.valid (hfields value hvalue)
    · exact hu.valid (hs.fields s o₁ ho₁ value hvalue)
  · rw [hp.rootCells]
    exact fun value hvalue => hu.valid (hs.cells value hvalue)
  · rw [hp.handleRoots]
    exact fun root hroot => hu.valid (hs.handles root hroot)
  · rw [hp.rememberedSet]
    exact hs.remembers.nodup
  · intro id hid
    rw [hp.rememberedSet] at hid
    obtain ⟨o₁, ho₁, hold⟩ := hs.remembers.old id hid
    obtain ⟨o₂, ho₂, hk⟩ := hu.lookup ho₁
    exact ⟨o₂, ho₂, hk.isOld.trans hold⟩
  · intro s o₁ ho₁ hold id hid hyoung
    rw [hp.rememberedSet, hu.currentId]
    have hyoung' := hu.namesYoung hyoung
    rw [hp.objectAt ho] at ho₁
    split at ho₁
    · next hslot =>
      cases ho₁
      exact hslot ▸ hremembers hold id hid hyoung'
    · exact hs.remembers.complete s o₁ ho₁ hold id hid hyoung'
  · rw [hp.weakRefs]
    exact hs.weakRefs.updates hu
  · rw [hp.ephemerons]
    exact hs.ephemerons.updates hu
  · exact hs.interns.updates hu hp.internTable
  · intro s o₁ m ho₁ hm
    rw [hp.objectAt ho] at ho₁
    split at ho₁
    · cases ho₁
      exact hu.indexedMap (hmap m hm)
    · exact hu.indexedMap (hs.maps s o₁ m ho₁ hm)

/-! ## The phases -/

theorem Publishes.unmarked (hp : h.Publishes h' slot o d) (ho : h.objectAt slot = some o)
    (hu : h.Unmarked) : h'.Unmarked := by
  intro s o₁ ho₁
  rw [hp.objectAt ho] at ho₁
  split at ho₁
  · cases ho₁
    exact hu slot o ho
  · exact hu s o₁ ho₁

/-- A store keeps the tri-colour invariant, if what it publishes in a marked object is marked or
grey. -/
theorem Publishes.triColour (hp : h.Publishes h' slot o d) (ho : h.objectAt slot = some o)
    {worklist : List ObjectId} (ht : h.TriColour worklist)
    (hgrey : o.marked = true → ∀ id, .object id ∈ d.val.referenceFields →
      ∀ slot' o', h.resolve id = .ok (slot', o') → o'.marked = true ∨ id ∈ worklist) :
    h'.TriColour worklist := by
  have hu : Updates (fun a b => b.marked = a.marked) h h' := hp.updates ho (fun _ => rfl) rfl
  refine ⟨fun id hid => hu.current (ht.grey id hid), ?_⟩
  intro s o₁ ho₁ hlive id hid s' o₂ hr
  obtain ⟨o₂', hr', hmarked⟩ := hu.symm.resolve hr
  have hlive' : o₁.marked = true := hlive
  have hgoal : o₂'.marked = true ∨ id ∈ worklist := by
    rw [hp.objectAt ho] at ho₁
    split at ho₁
    · cases ho₁
      exact hgrey hlive' id hid s' o₂' hr'
    · exact ht.traces s o₁ ho₁ hlive id hid s' o₂' hr'
  rcases hgoal with hm | hmem
  · have hm' : o₂.marked = true := hmarked.trans hm
    exact .inl hm'
  · exact .inr hmem

end Publishes

end Heap

/-! ## The shadow of a store -/

namespace IncrementalCompaction

variable {c : IncrementalCompaction} {h h' : Heap} {e : IncrementalCompactionEntry} {slot : ℕ}
  {o shadow : Object} {d d' : Descriptor}

/-- The tables after a store into the object of `e`. -/
def storeShadow (c : IncrementalCompaction) (e : IncrementalCompactionEntry) (shadow : Object)
    (d' : Descriptor) : IncrementalCompaction :=
  { c with shadowObjects := c.shadowObjects.set e.sourceSlot (some (shadow.withPayload d')) }

/-- The mirror of a payload. -/
def mirror (c : IncrementalCompaction) (p : Payload) : Payload :=
  p.forward fun id => some (c.sourceOf id)

theorem Mirrors.payload_eq (hm : c.Mirrors o shadow) :
    shadow.payload = c.mirror o.payload := hm.payload

theorem Mirrors.width (hm : c.Mirrors o shadow) : shadow.width = o.width := by
  rw [Object.width, hm.payload_eq]
  exact Payload.storageSlotCount_forward _ _

theorem getD_shadowObjects_storeShadow (hl : c.Layout h) (he : e ∈ c.plan) (s : ℕ) :
    (c.storeShadow e shadow d').shadowObjects.getD s none =
      if e.sourceSlot = s then some (shadow.withPayload d')
      else c.shadowObjects.getD s none := by
  have hlt : e.sourceSlot < c.shadowObjects.length := by
    rw [hl.shadowLength]
    have hpos := hl.width_pos he
    have hle := hl.sourceSlot_add_le he
    omega
  rw [storeShadow, getD_set]
  by_cases hslot : e.sourceSlot = s
  · rw [if_pos ⟨hslot, hlt⟩, if_pos hslot]
  · rw [if_neg fun hand => hslot hand.1, if_neg hslot]

/-- A mirrored store keeps the layout of the phase. -/
theorem Layout.store (hl : c.Layout h) (hp : h.Publishes h' slot o d)
    (ho : h.objectAt slot = some o) (he : e ∈ c.plan) (hslot : c.slotOf e = slot)
    (hshadow : c.shadowObjects.getD e.sourceSlot none = some shadow)
    (hwidth : d.val.storageSlotCount = o.width) (hmirror : d'.val = c.mirror d.val) :
    (c.storeShadow e shadow d').Layout h' := by
  have hlength : h'.objects.length = h.objects.length := by rw [hp.objects, List.length_set]
  have hgeneration : ∀ s, h'.generationAt s = h.generationAt s := fun s => by
    rw [Heap.generationAt, hp.generations]
    rfl
  have hshadows : ∀ s, (c.storeShadow e shadow d').shadowObjects.getD s none =
      if e.sourceSlot = s then some (shadow.withPayload d') else c.shadowObjects.getD s none :=
    getD_shadowObjects_storeShadow hl he
  obtain ⟨o₁, shadow₁, ho₁, hshadow₁, hm⟩ := hl.objects e he
  rw [hslot, ho] at ho₁
  cases ho₁
  rw [hshadow] at hshadow₁
  cases hshadow₁
  have hwidth' : (shadow.withPayload d').width = shadow.width := by
    rw [hm.width, ← hwidth]
    show d'.val.storageSlotCount = _
    rw [hmirror]
    exact Payload.storageSlotCount_forward _ _
  have hwidths : (c.storeShadow e shadow d').shadowWidth = c.shadowWidth := by
    funext s
    rw [IncrementalCompaction.shadowWidth, hshadows, IncrementalCompaction.shadowWidth]
    split
    · next hs =>
      rw [← hs, hshadow]
      exact hwidth'
    · rfl
  refine ⟨hl.cursor, hl.forwardingLength.trans hlength.symm, ?_,
    hl.generationsLength.trans hlength.symm, hwidths ▸ hl.disjoint, ?_, hl.sources, ?_, ?_,
    hl.sourceIds, hl.forwarding, ?_, ?_, ?_, ?_, ?_, ?_, ?_, ?_, hl.shadowIds⟩
  · rw [hlength, ← hl.shadowLength]
    exact List.length_set
  · rw [hwidths, hlength]
    exact hl.inside
  · intro e' he'
    have hp' := hl.planned e' he'
    refine ⟨?_, hp'.source, hp'.named, ?_, hp'.destination, hp'.generation⟩
    · rw [hshadows]
      split
      · next hs =>
        obtain ⟨shadow₂, hshadow₂, hw⟩ := hp'.shadow
        rw [← hs, hshadow] at hshadow₂
        cases hshadow₂
        exact ⟨_, rfl, hwidth'.trans hw⟩
      · exact hp'.shadow
    · rw [hwidths]
      exact hp'.slides
  · intro s o₁ hs
    rw [hshadows] at hs
    split at hs
    · next heq => exact ⟨e, he, heq⟩
    · exact hl.covers s o₁ hs
  · intro e' he' hdone
    rw [hgeneration]
    exact hl.reached e' he' hdone
  · intro s hs
    rw [hgeneration]
    exact hl.kept s hs
  · intro e' he'
    obtain ⟨o₁, shadow₁, ho₁, hshadow₁, hm₁⟩ := hl.objects e' he'
    rw [hshadows]
    by_cases heq : e = e'
    · subst heq
      refine ⟨o.withPayload d, shadow.withPayload d', ?_, if_pos rfl, ?_⟩
      · have hself := hp.objectAt_self ho
        rwa [← hslot] at hself
      · exact ⟨hmirror, hm.unmarked⟩
    · have hsource : e.sourceSlot ≠ e'.sourceSlot := fun hs => heq (hl.eq_of_sourceSlot he he' hs)
      have hne : slot ≠ c.slotOf e' := fun hs => heq (hl.eq_of_slotOf he he' (hslot.trans hs))
      refine ⟨o₁, shadow₁, ?_, by rw [if_neg hsource]; exact hshadow₁, hm₁.payload, hm₁.unmarked⟩
      exact (hp.objectAt_of_ne ho hne).trans ho₁
  · intro e' he' hdone o₁ ho₁
    rw [hp.objectAt ho] at ho₁
    split at ho₁
    · next hs =>
      cases ho₁
      exact hl.moved e' he' hdone o (hs ▸ ho)
    · exact hl.moved e' he' hdone o₁ ho₁
  · intro s o₁ ho₁
    rw [hp.objectAt ho] at ho₁
    split at ho₁
    · next hs => exact ⟨e, he, hslot.trans hs⟩
    · exact hl.occupied s o₁ ho₁
  · rw [hp.weakRefs]
    exact hl.weakRefs
  · rw [hp.ephemerons]
    exact hl.ephemerons
  · rw [hp.internTable]
    exact hl.internTable

end IncrementalCompaction

/-! ## Barriers -/

namespace Heap

/-- `h'` is `h` with more objects grey and remembered. -/
structure Barriered (h h' : Heap) : Prop where
  rest : h' = { h with phase := h'.phase, rememberedSet := h'.rememberedSet }
  phase : h'.phase = h.phase ∨ ∃ worklist worklist', h.phase = .marking worklist ∧
    h'.phase = .marking worklist' ∧ ∀ id ∈ worklist, id ∈ worklist'
  remembered : ∀ id ∈ h.rememberedSet, id ∈ h'.rememberedSet
  wf : h'.Wf

/-- A reference to a marked or grey object, if the owner is marked. -/
def Greyed (h : Heap) (owner : Object) (value : Value) : Prop :=
  ∀ worklist, h.phase = .marking worklist → owner.marked = true → ∀ id, value = .object id →
    ∀ slot o, h.resolve id = .ok (slot, o) → o.marked = true ∨ id ∈ worklist

/-- The owner at `slot` is remembered, if it is old and refers to a young object. -/
def Recorded (h : Heap) (slot : ℕ) (owner : Object) (value : Value) : Prop :=
  owner.isOld = true → ∀ id, value = .object id → h.NamesYoung id →
    h.currentId slot ∈ h.rememberedSet

/-- A store of `value` through `owner` would remember a stale identifier: the write barrier
records the identifier it was given. -/
structure RemembersStale (h : Heap) (owner : ObjectId) (value : Value) : Prop where
  old : ∃ slot o, h.resolve owner = .ok (slot, o) ∧ o.isOld = true
  stale : ¬h.Current owner
  young : ∃ id, value = .object id ∧ h.NamesYoung id

section Barriers

variable {h h' : Heap} {slot : ℕ} {o : Object} {id owner : ObjectId} {value : Value}

theorem Barriered.refl (hw : h.Wf) : h.Barriered h :=
  ⟨rfl, .inl rfl, fun _ hid => hid, hw⟩

theorem Barriered.trans {h'' : Heap} (hb : h.Barriered h') (hb' : h'.Barriered h'') :
    h.Barriered h'' where
  rest := by
    rw [hb'.rest, hb.rest]
  phase := by
    rcases hb.phase with heq | ⟨w, w', hw, hw', hsub⟩ <;>
      rcases hb'.phase with heq' | ⟨v, v', hv, hv', hsub'⟩
    · exact .inl (heq'.trans heq)
    · exact .inr ⟨v, v', heq ▸ hv, hv', hsub'⟩
    · exact .inr ⟨w, w', hw, heq'.trans hw', hsub⟩
    · rw [hw'] at hv
      cases hv
      exact .inr ⟨w, v', hw, hv', fun id hid => hsub' id (hsub id hid)⟩
  remembered id hid := hb'.remembered id (hb.remembered id hid)
  wf := hb'.wf

theorem Barriered.objectAt (hb : h.Barriered h') (slot : ℕ) :
    h'.objectAt slot = h.objectAt slot := by
  rw [hb.rest]
  rfl

theorem Barriered.currentId (hb : h.Barriered h') (slot : ℕ) :
    h'.currentId slot = h.currentId slot := by
  rw [hb.rest]
  rfl

theorem Barriered.forwardedId (hb : h.Barriered h') : h'.forwardedId = h.forwardedId := by
  funext id
  rcases hb.phase with heq | ⟨_, _, hw, hw', -⟩
  · rw [Heap.forwardedId, heq]
    rfl
  · rw [Heap.forwardedId, Heap.forwardedId, hw, hw']

theorem Barriered.lookup (hb : h.Barriered h') (id : ObjectId) : h'.lookup id = h.lookup id := by
  rw [hb.rest]
  rfl

theorem Barriered.resolve_iff (hb : h.Barriered h') :
    h'.resolve id = .ok (slot, o) ↔ h.resolve id = .ok (slot, o) := by
  simp only [resolve_eq_ok_iff, hb.lookup, hb.forwardedId]

theorem Barriered.valid (hb : h.Barriered h') : h'.Valid value ↔ h.Valid value := by
  simp only [Valid, Resolves, hb.resolve_iff]

theorem Barriered.namesYoung (hb : h.Barriered h') : h'.NamesYoung id ↔ h.NamesYoung id := by
  simp only [NamesYoung, hb.resolve_iff]

theorem Barriered.greyed (hb : h.Barriered h') (hg : h.Greyed o value) : h'.Greyed o value := by
  intro worklist' hphase' hmarked id heq slot o₁ hr
  rw [hb.resolve_iff] at hr
  rcases hb.phase with hsame | ⟨w, w', hw, hw', hsub⟩
  · exact hg worklist' (hsame ▸ hphase') hmarked id heq slot o₁ hr
  · rw [hw'] at hphase'
    cases hphase'
    exact (hg w hw hmarked id heq slot o₁ hr).imp_right (hsub id)

theorem Barriered.recorded (hb : h.Barriered h') (hr : h.Recorded slot o value) :
    h'.Recorded slot o value := by
  intro hold id heq hyoung
  rw [hb.currentId]
  exact hb.remembered _ (hr hold id heq (hb.namesYoung.mp hyoung))

/-- One more grey object. -/
theorem TriColour.cons {worklist : List ObjectId} (ht : h.TriColour worklist)
    (hid : h.Current id) : h.TriColour (id :: worklist) where
  grey id' hid' := by
    rcases List.mem_cons.mp hid' with rfl | hmem
    · exact hid
    · exact ht.grey id' hmem
  traces slot o ho hlive id' hid' slot' o' hr :=
    (ht.traces slot o ho hlive id' hid' slot' o' hr).imp_right (List.mem_cons_of_mem _)

theorem Wf.shade (hw : h.Wf) {worklist : List ObjectId} (hphase : h.phase = .marking worklist)
    (hid : h.Current id) : h.Barriered (h.withPhase (.marking (id :: worklist))) := by
  have hc := compactionActive_of_marking hphase
  have ht := (hw.triColour hphase).cons hid
  refine ⟨rfl, .inr ⟨worklist, _, hphase, rfl, fun _ hmem => List.mem_cons_of_mem _ hmem⟩,
    fun _ hmem => hmem, hw.toSound.withPhase hc rfl, ?_⟩
  exact ht.withPhase (updates_withPhase (.marking (id :: worklist)) hc rfl)

/-- The incremental barrier greys what it has to. -/
theorem wp_incrementalWriteBarrierBeforePublish (hw : h.Wf)
    (hr : h.resolve owner = .ok (slot, o)) :
    wp (incrementalWriteBarrierBeforePublish owner value)
      (fun _ h' => h.Barriered h' ∧ h'.Greyed o value ∧ (h.Valid value ∨ h' = h))
      (fun _ h' => h' = h ∧ ¬h.Valid value) h := by
  unfold incrementalWriteBarrierBeforePublish
  rw [wp_bind, wp_get]
  have hskip : (∀ worklist, h.phase ≠ .marking worklist) ∨ value.isObject = false →
      h.Barriered h ∧ h.Greyed o value ∧ (h.Valid value ∨ h = h) := by
    intro hno
    refine ⟨.refl hw, fun worklist hphase _ id heq => ?_, .inr rfl⟩
    rcases hno with hno | hno
    · exact absurd hphase (hno worklist)
    · rw [heq] at hno
      cases hno
  cases hphase : h.phase with
  | idle => exact hskip (.inl fun _ => by simp [hphase])
  | compacting c => exact hskip (.inl fun _ => by simp [hphase])
  | marking worklist =>
    cases value with
    | object id =>
      refine wp_query_ok hr ?_
      refine wp_query_bind (fun found hfound => ?_) fun e he => ⟨rfl, fun hv => ?_⟩
      · obtain ⟨slot', target⟩ := found
        have hcurrent : h.Current id :=
          Resolves.current ⟨slot', target, hfound⟩ (compactionActive_of_marking hphase)
        by_cases hgrey : (o.marked && !target.marked) = true
        · simp only [hgrey, if_true, wp_modify]
          refine ⟨hw.shade hphase hcurrent, ?_, .inl (valid_object.mpr hcurrent.resolves)⟩
          intro worklist' hphase' _ id' heq _ _ _
          cases heq
          cases hphase'
          exact .inr List.mem_cons_self
        · simp only [hgrey]
          refine ⟨.refl hw, ?_, .inr rfl⟩
          intro worklist' hphase' hmarked id' heq slot₁ o₁ hr₁
          cases heq
          rw [hfound] at hr₁
          cases hr₁
          rw [hmarked] at hgrey
          exact .inl (by simpa using hgrey)
      · obtain ⟨slot', target, hfound⟩ := valid_object.mp hv
        rw [hfound] at he
        cases he
    | _ => exact hskip (.inr rfl)

/-- A step that writes neither objects nor generations and keeps the phase. -/
theorem updates_of_objects (hobjects : h'.objects = h.objects)
    (hgenerations : h'.generations = h.generations) (hphase : h'.phase = h.phase) :
    Updates Eq h h' where
  objects slot := by
    have hat : h'.objectAt slot = h.objectAt slot := by rw [Heap.objectAt, hobjects]; rfl
    rw [hat]
    cases h.objectAt slot with
    | none => exact .none
    | some o => exact .some rfl
  length := by rw [hobjects]
  generations := hgenerations
  forwarded := by
    funext id
    rw [forwardedId, hphase]
    rfl

/-- The phase clauses do not mention the roots and the remembered set. -/
theorem PhaseSound.frame (hp : h.PhaseSound) (hobjects : h'.objects = h.objects)
    (hgenerations : h'.generations = h.generations) (hphase : h'.phase = h.phase)
    (hweak : h'.weakRefs = h.weakRefs) (hephemerons : h'.ephemerons = h.ephemerons)
    (htable : h'.internTable = h.internTable) : h'.PhaseSound := by
  have hat : h'.objectAt = h.objectAt := by
    funext slot
    rw [Heap.objectAt, hobjects]
    rfl
  have hgeneration : h'.generationAt = h.generationAt := by
    funext slot
    rw [Heap.generationAt, hgenerations]
    rfl
  have hu := updates_of_objects hobjects hgenerations hphase
  unfold PhaseSound at hp ⊢
  rw [hphase]
  cases hc : h.phase with
  | idle =>
    rw [hc] at hp
    exact fun slot o ho => hp slot o (hat ▸ ho)
  | marking worklist =>
    rw [hc] at hp
    refine ⟨fun id hid => hu.current (hp.grey id hid), ?_⟩
    intro slot o ho hlive id hid slot' o' hr
    obtain ⟨o₁, hr₁, rfl⟩ := hu.symm.resolve hr
    exact hp.traces slot o (hat ▸ ho) hlive id hid slot' o₁ hr₁
  | compacting c =>
    rw [hc] at hp
    obtain ⟨hunmarked, hl⟩ := hp
    refine ⟨fun slot o ho => hunmarked slot o (hat ▸ ho), ?_⟩
    constructor
    case weakRefs => rw [hweak]; exact hl.weakRefs
    case ephemerons => rw [hephemerons]; exact hl.ephemerons
    case internTable => rw [htable]; exact hl.internTable
    case forwardingLength => rw [hobjects]; exact hl.forwardingLength
    case shadowLength => rw [hobjects]; exact hl.shadowLength
    case generationsLength => rw [hobjects]; exact hl.generationsLength
    case inside => rw [hobjects]; exact hl.inside
    case reached => rw [hgeneration]; exact hl.reached
    case kept => rw [hgeneration]; exact hl.kept
    case objects => rw [hat]; exact hl.objects
    case moved => rw [hat]; exact hl.moved
    case occupied => rw [hat]; exact hl.occupied
    all_goals first
      | exact hl.cursor
      | exact hl.disjoint
      | exact hl.sources
      | exact hl.planned
      | exact hl.covers
      | exact hl.sourceIds
      | exact hl.forwarding
      | exact hl.shadowIds

/-- Remembering an old object under its current identifier keeps the invariant. -/
theorem Wf.remember (hw : h.Wf) (ho : h.lookup id = some o) (hold : o.isOld = true)
    (hnew : id ∉ h.rememberedSet) :
    h.Barriered { h with rememberedSet := h.rememberedSet ++ [id] } := by
  have hs := hw.toSound
  have hu : Updates Eq h { h with rememberedSet := h.rememberedSet ++ [id] } :=
    updates_of_objects rfl rfl rfl
  have hsound : Sound { h with rememberedSet := h.rememberedSet ++ [id] } := by
    refine hs.frame hu hs.cells hs.handles ⟨?_, ?_, ?_⟩ rfl rfl rfl
    · have hnodup := hs.remembers.nodup
      exact List.nodup_append.mpr ⟨hnodup, List.nodup_singleton _, fun a ha b hb heq =>
        hnew (List.mem_singleton.mp hb ▸ heq ▸ ha)⟩
    · intro id' hid'
      rcases List.mem_append.mp hid' with hmem | hmem
      · exact hs.remembers.old id' hmem
      · rw [List.mem_singleton.mp hmem]
        exact ⟨o, ho, hold⟩
    · intro slot o₁ ho₁ hold₁ id₁ hid₁ hyoung
      have hk : Updates Object.Kindred h { h with rememberedSet := h.rememberedSet ++ [id] } :=
        hu.mono fun a b heq => heq ▸ .refl a
      exact List.mem_append_left _
        (hs.remembers.complete slot o₁ ho₁ hold₁ id₁ hid₁ (hk.namesYoung hyoung))
  exact ⟨rfl, .inl rfl, fun _ hmem => List.mem_append_left _ hmem, hsound,
    hw.phase.frame rfl rfl rfl rfl rfl rfl⟩

theorem wp_recordRememberedObject (hw : h.Wf) (ho : h.lookup id = some o)
    (hold : o.isOld = true) :
    wp (recordRememberedObject id) (fun _ h' => h.Barriered h' ∧ id ∈ h'.rememberedSet)
      (fun _ _ => False) h := by
  unfold recordRememberedObject
  refine wp_query_ok (resolve_of_lookup ho) ?_
  simp only [hold, Bool.not_true, Bool.false_eq_true, if_false, wp_modify]
  split
  · next hmem => exact ⟨.refl hw, List.contains_iff_mem.mp hmem⟩
  · next hmem =>
    have hnew : id ∉ h.rememberedSet := fun hin => hmem (List.contains_iff_mem.mpr hin)
    exact ⟨hw.remember ho hold hnew, List.mem_append_right _ List.mem_cons_self⟩

/-- The write barrier remembers what it has to, unless it is given a stale owner. -/
theorem wp_recordWriteBarrierIfNeeded (hw : h.Wf) (hr : h.resolve owner = .ok (slot, o))
    (hstale : ¬h.RemembersStale owner value) :
    wp (recordWriteBarrierIfNeeded owner value)
      (fun _ h' => h.Barriered h' ∧ h'.Recorded slot o value ∧ h.Valid value)
      (fun _ h' => h' = h ∧ ¬h.Valid value) h := by
  unfold recordWriteBarrierIfNeeded
  cases value with
  | object id =>
    refine wp_query_ok hr ?_
    refine wp_query_bind (fun found hfound => ?_) fun e he => ⟨rfl, fun hv => ?_⟩
    · obtain ⟨slot', target⟩ := found
      have hv : h.Valid (.object id) := valid_object.mpr ⟨slot', target, hfound⟩
      by_cases hbarrier : (o.isOld && target.isYoung) = true
      · obtain ⟨hold, hyoung⟩ := Bool.and_eq_true_iff.mp hbarrier
        have hnames : h.NamesYoung id := ⟨slot', target, hfound, hyoung⟩
        have hcurrent : h.Current owner := by
          by_contra hnot
          exact hstale ⟨⟨slot, o, hr, hold⟩, hnot, id, rfl, hnames⟩
        obtain ⟨o₁, ho₁⟩ := hcurrent
        have hsame := resolve_of_lookup ho₁
        rw [hr] at hsame
        cases hsame
        simp only [hbarrier, if_true]
        rw [wp_bind]
        refine wp_mono (wp_recordRememberedObject hw ho₁ hold) (fun _ h' hpost => ?_)
          fun _ _ he => he.elim
        rw [wp_pure]
        refine ⟨hpost.1, fun _ _ _ _ => ?_, hv⟩
        rw [hpost.1.currentId, hw.storage.currentId_of_lookup ho₁]
        exact hpost.2
      · simp only [hbarrier]
        refine ⟨.refl hw, fun hold id' heq hyoung => ?_, hv⟩
        cases heq
        obtain ⟨slot₁, o₁, hr₁, hyoung₁⟩ := hyoung
        rw [hfound] at hr₁
        cases hr₁
        rw [hold, hyoung₁] at hbarrier
        exact absurd rfl hbarrier
    · obtain ⟨slot', target, hfound⟩ := valid_object.mp hv
      rw [hfound] at he
      exact nomatch he
  | _ => exact ⟨.refl hw, fun _ _ heq => (nomatch heq), valid_of_not_isObject rfl⟩

/-- The barriers in front of a field store. -/
theorem wp_fieldBarriers (hw : h.Wf) (hr : h.resolve owner = .ok (slot, o)) (isRef : Bool)
    (hstale : isRef = true → ¬h.RemembersStale owner value) :
    wp (fieldBarriers isRef owner value)
      (fun _ h' => h.Barriered h' ∧ (isRef = true → h'.Greyed o value ∧
        h'.Recorded slot o value ∧ h.Valid value))
      (fun _ h' => h' = h) h := by
  unfold fieldBarriers
  cases isRef with
  | false => exact ⟨.refl hw, nofun⟩
  | true =>
    rw [if_pos rfl, wp_bind]
    refine wp_mono (wp_incrementalWriteBarrierBeforePublish hw hr) (fun _ h₁ hpost => ?_)
      fun _ _ he => he.1
    obtain ⟨hb, hgreyed, hvalid⟩ := hpost
    have hstale₁ : ¬h₁.RemembersStale owner value := by
      rintro ⟨⟨slot₁, o₁, hr₁, hold⟩, hnot, id, heq, hyoung⟩
      refine hstale rfl ⟨⟨slot₁, o₁, hb.resolve_iff.mp hr₁, hold⟩, ?_, id, heq,
        hb.namesYoung.mp hyoung⟩
      rintro ⟨o₂, ho₂⟩
      exact hnot ⟨o₂, (hb.lookup owner).trans ho₂⟩
    refine wp_mono (wp_recordWriteBarrierIfNeeded hb.wf (hb.resolve_iff.mpr hr) hstale₁)
      (fun _ h₂ hpost => ?_) fun _ h₂ he => ?_
    · obtain ⟨hb₂, hrecorded, hv⟩ := hpost
      exact ⟨hb.trans hb₂, fun _ => ⟨hb₂.greyed hgreyed, hrecorded, hb.valid.mp hv⟩⟩
    · obtain ⟨rfl, hnot⟩ := he
      rcases hvalid with hv | heq
      · exact absurd (hb.valid.mpr hv) hnot
      · exact heq

end Barriers

end Heap

/-! ## Publishing -/

theorem IncrementalCompaction.shape_mirror (c : IncrementalCompaction) (d : Descriptor) :
    (c.mirror d.val).DescriptorShape := by
  unfold mirror Payload.forward
  exact ((d.property.mapReferenceFields _).forwardWeakTarget _).forwardEphemeron _

namespace Heap

/-- The payload `d` may replace that of the object `o` at `slot`: it is of the same kind, it
fits, and what it refers to resolves and has passed the barriers. -/
structure Storable (h : Heap) (slot : ℕ) (o : Object) (d : Descriptor) : Prop where
  kind : d.val.kind = o.payload.kind
  mutable : o.payload.kind ≠ .str
  fits : h.Fits slot d.val.storageSlotCount
  fields : ∀ value ∈ d.val.allFields, h.Valid value
  greyed : ∀ value ∈ d.val.referenceFields, h.Greyed o value
  recorded : ∀ value ∈ d.val.referenceFields, h.Recorded slot o value
  indexed : ∀ m, d.val = .map m → h.IndexedMap m

section Publish

variable {h h' : Heap} {slot : ℕ} {o : Object} {id : ObjectId} {d : Descriptor}

theorem Storable.sound (hd : h.Storable slot o d) (hp : h.Publishes h' slot o d)
    (ho : h.objectAt slot = some o) (hs : h.Sound) : h'.Sound :=
  hp.sound ho hs hd.kind hd.mutable hd.fits hd.fields
    (fun hold id hid => hd.recorded _ hid hold id rfl) hd.indexed

/-- Replacing a payload and mirroring it keeps the invariant. -/
theorem Wf.wp_publish (hw : h.Wf) (hr : h.resolve id = .ok (slot, o))
    (hd : h.Storable slot o d)
    {mirror : Heap → IncrementalCompaction → Payload → Except HeapError Payload}
    (hmirror : ∀ c, h.phase = .compacting c → d.val.storageSlotCount = o.width ∧
      ∀ h', mirror h' c (c.mirror o.payload) = .ok (c.mirror d.val)) :
    wp (do modify (·.setPayload slot d); mirrorIntoShadow id mirror)
      (fun _ h' => h'.Wf ∧ h.Publishes h' slot o d) (fun _ _ => False) h := by
  have ho := objectAt_of_resolve hr
  have hp : h.Publishes (h.setPayload slot d) slot o d := publishes_setPayload ho
  have hphase' : (h.setPayload slot d).phase = h.phase := by
    rw [setPayload, ho]
    rfl
  have hsound := hd.sound hp ho hw.toSound
  have hsaid := hw.phase
  rw [wp_bind, wp_modify, mirrorIntoShadow, wp_bind, wp_get, hphase']
  cases hphase : h.phase with
  | idle =>
    rw [PhaseSound, hphase] at hsaid
    refine ⟨⟨hsound, ?_⟩, hp⟩
    rw [PhaseSound, hphase', hphase]
    exact hp.unmarked ho hsaid
  | marking worklist =>
    rw [PhaseSound, hphase] at hsaid
    refine ⟨⟨hsound, ?_⟩, hp⟩
    rw [PhaseSound, hphase', hphase]
    exact hp.triColour ho hsaid fun hmarked id hid =>
      hd.greyed _ hid worklist hphase hmarked id rfl
  | compacting c =>
    rw [PhaseSound, hphase] at hsaid
    obtain ⟨hunmarked, hl⟩ := hsaid
    obtain ⟨hwidth, hmirrored⟩ := hmirror c hphase
    obtain ⟨e, hn, rfl, -⟩ := (hl.resolve_iff hphase).mp hr
    obtain ⟨o₁, shadow, ho₁, hshadow, hm⟩ := hl.objects e hn.planned
    rw [ho] at ho₁
    cases ho₁
    refine wp_query_ok (hl.shadowObject_eq_ok hphase hn hshadow _) ?_
    refine wp_query_ok (a := c.mirror d.val) (by rw [hm.payload_eq]; exact hmirrored _) ?_
    refine wp_query_ok (validateDescriptorShape_of_shape (c.shape_mirror d)) ?_
    rw [wp_modify]
    have hmirror : (⟨c.mirror d.val, c.shape_mirror d⟩ : Descriptor).val = c.mirror d.val := rfl
    have hl' := hl.store hp ho hn.planned rfl hshadow hwidth hmirror
    have hforwarded : forwardedId { h.setPayload (c.slotOf e) d with
        phase := .compacting (c.storeShadow e shadow ⟨_, c.shape_mirror d⟩) } =
          h.forwardedId := by
      funext id
      rw [forwardedId, forwardedId, hphase]
      rfl
    have hp' : h.Publishes { h.setPayload (c.slotOf e) d with
        phase := .compacting (c.storeShadow e shadow ⟨_, c.shape_mirror d⟩) }
          (c.slotOf e) o d :=
      ⟨hp.objects, hp.generations, hforwarded, hp.rootCells, hp.handleRoots, hp.rememberedSet,
        hp.weakRefs, hp.ephemerons, hp.internTable, hp.nextSerial⟩
    have hl'' := hl.store hp' ho hn.planned rfl hshadow hwidth hmirror
    exact ⟨⟨hd.sound hp' ho hw.toSound, hp'.unmarked ho hunmarked, hl''⟩, hp'⟩

end Publish

end Heap

end LanguageRuntime.Gc
