import LanguageRuntime.Gc.PrepareTheorems

/-!
# Field and element stores

The stores into pairs, arrays, records and ephemerons keep the representation invariant in every
phase.
-/

namespace LanguageRuntime.Gc

open LanguageRuntime LanguageRuntime.Library

namespace Heap

/-! ## Canonical operands -/

section Canonical

variable {h : Heap} {id : ObjectId} {slot : ℕ} {o : Object} {value value' : Value}

/-- A read returns the current identifier, in every phase. -/
theorem Wf.canonicalize_eq_ok (hw : h.Wf) (hv : h.Valid value) :
    h.canonicalizeIncrementalCompactionRead value = .ok (value.mapObject h.canonical) := by
  unfold canonicalizeIncrementalCompactionRead
  cases hphase : h.phase with
  | compacting c => exact (hw.compacting hphase).2.rewriteValue_eq_ok hw.storage hphase hv
  | _ =>
    have hc : h.incrementalCompactionActive = false := by rw [incrementalCompactionActive, hphase]
    cases value with
    | object id =>
      rw [Value.mapObject_object, hw.storage.canonical_of_inactive hc]
      simp only [rewriteIncrementalCompactionValue, hphase]
    | _ => rfl

theorem Wf.canonicalizeReference_eq_ok (hw : h.Wf) (isRef : Bool)
    (hv : isRef = true → h.Valid value) : h.canonicalizeReference isRef value =
      .ok (if isRef then value.mapObject h.canonical else value) := by
  cases isRef with
  | true => exact hw.canonicalize_eq_ok (hv rfl)
  | false => rfl

theorem namesYoung_of_resolve (hr : h.resolve id = .ok (slot, o)) :
    h.NamesYoung id ↔ o.isYoung = true := by
  constructor
  · rintro ⟨slot', o', hr', hyoung⟩
    rw [hr] at hr'
    cases hr'
    exact hyoung
  · exact fun hyoung => ⟨slot, o, hr, hyoung⟩

/-- The current identifier names the same object. -/
theorem Storage.namesYoung_canonical (hs : h.Storage) :
    h.NamesYoung (h.canonical id) ↔ h.NamesYoung id := by
  cases hr : h.resolve id with
  | ok found =>
    obtain ⟨slot, o⟩ := found
    rw [namesYoung_of_resolve hr, namesYoung_of_resolve (hs.resolve_canonical hr)]
  | error e => rw [canonical, hr]

/-- Canonicalizing the value does not change whether a store would remember a stale
identifier. -/
theorem RemembersStale.of_canonical (hs : h.Storage)
    (hstale : h.RemembersStale id (value.mapObject h.canonical)) : h.RemembersStale id value := by
  obtain ⟨target, heq, hyoung⟩ := hstale.young
  refine ⟨hstale.old, hstale.stale, ?_⟩
  cases value with
  | object id' =>
    cases heq
    exact ⟨id', rfl, hs.namesYoung_canonical.mp hyoung⟩
  | _ => exact nomatch heq

end Canonical

/-! ## Publishing a field -/

section Publish

variable {h h' : Heap} {id : ObjectId} {slot : ℕ} {o : Object} {value : Value} {isRef : Bool}
  {payload : Payload} {roots : List Value}
  {mirror : Heap → IncrementalCompaction → Payload → Except HeapError Payload}

theorem wp_collectAfterBarrier (hw : h.Wf) (barrierTriggered : Bool)
    (hroots : ∀ value ∈ roots, h.Valid value) :
    wp (collectAfterBarrier barrierTriggered roots) (fun _ h' => h'.Wf) Throws h := by
  unfold collectAfterBarrier
  rw [wp_bind, wp_get]
  refine wp_ite (fun _ => ?_) fun _ => hw
  rw [wp_bind]
  exact wp_mono (wp_collectImpl hw hroots) (fun _ _ hrests => hrests.wf) fun _ _ he => he

/-- The payload a field store publishes in `o`: the old one with `value` in one field. -/
structure FieldStore (o : Object) (isRef : Bool) (value : Value) (payload : Payload) : Prop where
  kind : payload.kind = o.payload.kind
  mutable : o.payload.kind ≠ .str
  width : payload.storageSlotCount = o.width
  fields : ∀ v ∈ payload.allFields, v ∈ o.payload.allFields ∨ isRef = true ∧ v = value
  references : ∀ v ∈ payload.referenceFields, v ∈ o.payload.referenceFields ∨
    isRef = true ∧ v = value
  noMap : ∀ m, payload ≠ .map m

/-- Once the barriers have seen the value, the payload may be published. -/
theorem FieldStore.storable (hf : FieldStore o isRef value payload) (hw : h.Wf)
    (ho : h.objectAt slot = some o) (hshape : payload.DescriptorShape)
    (hbarriers : isRef = true → h.Greyed o value ∧ h.Recorded slot o value ∧ h.Valid value) :
    h.Storable slot o ⟨payload, hshape⟩ where
  kind := hf.kind
  mutable := hf.mutable
  fits := by
    have hfits := hw.storage.fits ho
    rwa [← hf.width] at hfits
  fields v hv := by
    rcases hf.fields v hv with hold | ⟨hisRef, rfl⟩
    · exact hw.fields slot o ho v hold
    · exact (hbarriers hisRef).2.2
  greyed v hv := by
    rcases hf.references v hv with hold | ⟨hisRef, rfl⟩
    · intro worklist hphase hmarked id heq slot' o' hr
      exact (hw.triColour hphase).traces slot o ho hmarked id (heq ▸ hold) slot' o' hr
    · exact (hbarriers hisRef).1
  recorded v hv := by
    rcases hf.references v hv with hold | ⟨hisRef, rfl⟩
    · intro hisOld id heq hyoung
      exact hw.remembers.complete slot o ho hisOld id (heq ▸ hold) hyoung
    · exact (hbarriers hisRef).2.1
  indexed m hm := absurd hm (hf.noMap m)

/-- `h'` is `h` after the barriers and with the payload `d` in the object `o` of `slot`. -/
def Stored (h h' : Heap) (slot : ℕ) (o : Object) (d : Descriptor) : Prop :=
  h'.Wf ∧ ∃ h₁, h.Barriered h₁ ∧ h₁.Publishes h' slot o d

/-- What the rest of a store into the object that `id` names has to show, when the store replaces
a payload as `R` says. -/
structure AfterStore (h : Heap) (id : ObjectId) (R : Payload → Payload → Prop)
    (Q : Unit → Heap → Prop) (E : HeapError → Heap → Prop) : Prop where
  stored : ∀ slot o d h' triggered roots, h.resolve id = .ok (slot, o) → R o.payload d.val →
    h.Stored h' slot o d → (∀ v ∈ roots, h'.Valid v) →
      wp (collectAfterBarrier triggered roots) Q E h'
  failed : ∀ e h', h.Barriered h' → E e h'

/-- A field store publishes its payload, unless its write barrier remembers a stale identifier. -/
theorem wp_publishField {R : Payload → Payload → Prop} {Q : Unit → Heap → Prop}
    {E : HeapError → Heap → Prop} (hw : h.Wf) (hr : h.resolve id = .ok (slot, o))
    (hf : FieldStore o isRef value payload)
    (hstale : isRef = true → ¬h.RemembersStale id value)
    (hmirror : ∀ c, h.phase = .compacting c → ∀ h',
      mirror h' c (c.mirror o.payload) = .ok (c.mirror payload))
    (hroots : ∀ v ∈ roots, h.Valid v) (hR : R o.payload payload) (hafter : h.AfterStore id R Q E) :
    wp (publishField id slot isRef value payload mirror roots) Q E h := by
  unfold publishField
  rw [wp_bind]
  refine wp_mono (wp_fieldBarriers hw hr isRef hstale) (fun triggered h₁ hpost => ?_)
    fun e h' heq => heq ▸ hafter.failed e h (.refl hw)
  obtain ⟨hb, hbarriers⟩ := hpost
  have hw₁ := hb.wf
  have hr₁ := hb.resolve_iff.mpr hr
  have ho₁ := objectAt_of_resolve hr₁
  by_cases hshape : payload.DescriptorShape
  · refine wp_query_ok (validateDescriptorShape_of_shape hshape) ?_
    have hd := hf.storable hw₁ ho₁ hshape fun hisRef =>
      ⟨(hbarriers hisRef).1, (hbarriers hisRef).2.1, hb.valid.mpr (hbarriers hisRef).2.2⟩
    have hmirror₁ : ∀ c, h₁.phase = .compacting c → payload.storageSlotCount = o.width ∧
        ∀ h', mirror h' c (c.mirror o.payload) = .ok (c.mirror payload) := by
      intro c hc
      refine ⟨hf.width, hmirror c ?_⟩
      rcases hb.phase with hsame | ⟨_, _, _, hmarking, -⟩
      · rw [← hsame, hc]
      · rw [hmarking] at hc
        exact nomatch hc
    have hpublish := hw₁.wp_publish hr₁ hd hmirror₁
    rw [wp_bind] at hpublish
    rw [wp_bind]
    refine wp_mono hpublish (fun _ h₂ hmirrored => ?_) fun _ _ he => he.elim
    rw [wp_bind]
    refine wp_mono hmirrored (fun _ h₃ hpublished => ?_) fun _ _ he => he.elim
    obtain ⟨hw₃, hp⟩ := hpublished
    have hu := hp.kindred ho₁ hf.kind hf.mutable
    exact hafter.stored slot o _ h₃ triggered roots hr hR ⟨hw₃, h₁, hb, hp⟩ fun v hv =>
      hu.valid (hb.valid.mpr (hroots v hv))
  · refine wp_query_bind (fun d hd => ?_) fun e _ => hafter.failed e h₁ hb
    rw [validateDescriptorShape, dif_neg hshape] at hd
    exact nomatch hd

/-- The rest of a store keeps the invariant. -/
theorem afterStore_wf (h : Heap) (id : ObjectId) (R : Payload → Payload → Prop) :
    h.AfterStore id R (fun _ h' => h'.Wf) Throws where
  stored _ _ _ _ triggered _ _ _ hs hroots := wp_collectAfterBarrier hs.1 triggered hroots
  failed _ _ hb := .inl hb.wf

end Publish

/-! ## The stores -/

section Stores

variable {h : Heap} {id : ObjectId} {slot index : ℕ} {o : Object} {value : Value}
  {Q : Unit → Heap → Prop} {E : HeapError → Heap → Prop}

theorem checkedPair_eq_ok {left right : Value} (hok : h.checkedPair id = .ok (slot, o, left, right)) :
    h.resolve id = .ok (slot, o) ∧ o.payload = .pair left right := by
  obtain ⟨⟨slot', o'⟩, hr, hrest⟩ := bind_eq_ok.mp hok
  dsimp only at hrest
  split at hrest
  · next hp =>
    cases hrest
    exact ⟨hr, hp⟩
  · exact nomatch hrest

theorem checkedScalarArray_eq_ok {elements : List Int64}
    (hok : h.checkedScalarArray id = .ok (slot, o, elements)) :
    h.resolve id = .ok (slot, o) ∧ o.payload = .scalarArray elements := by
  obtain ⟨⟨slot', o'⟩, hr, hrest⟩ := bind_eq_ok.mp hok
  dsimp only at hrest
  split at hrest
  · next hp =>
    cases hrest
    exact ⟨hr, hp⟩
  · exact nomatch hrest

theorem checkedRefArray_eq_ok {elements : List Value}
    (hok : h.checkedRefArray id = .ok (slot, o, elements)) :
    h.resolve id = .ok (slot, o) ∧ o.payload = .refArray elements := by
  obtain ⟨⟨slot', o'⟩, hr, hrest⟩ := bind_eq_ok.mp hok
  dsimp only at hrest
  split at hrest
  · next hp =>
    cases hrest
    exact ⟨hr, hp⟩
  · exact nomatch hrest

theorem checkedRecord_eq_ok {l : ℕ} {fields : List Value} {refMap : List Bool}
    (hok : h.checkedRecord id = .ok (slot, o, l, fields, refMap)) :
    h.resolve id = .ok (slot, o) ∧ o.payload = .record l fields refMap := by
  obtain ⟨⟨slot', o'⟩, hr, hrest⟩ := bind_eq_ok.mp hok
  dsimp only at hrest
  split at hrest
  · next hp =>
    cases hrest
    exact ⟨hr, hp⟩
  · exact nomatch hrest

theorem checkedEphemeron_eq_ok {key value : Value} {valueIsRef : Bool}
    (hok : h.checkedEphemeron id = .ok (slot, o, key, value, valueIsRef)) :
    h.resolve id = .ok (slot, o) ∧ o.payload = .ephemeron key value valueIsRef := by
  obtain ⟨⟨slot', o'⟩, hr, hrest⟩ := bind_eq_ok.mp hok
  dsimp only at hrest
  split at hrest
  · next hp =>
    cases hrest
    exact ⟨hr, hp⟩
  · exact nomatch hrest

/-- The mirror of a value in a reference field. -/
theorem Wf.normalizeShadowValue_eq_ok (hw : h.Wf) {c : IncrementalCompaction}
    (hphase : h.phase = .compacting c) (hv : h.Valid value) (h' : Heap) :
    h'.normalizeShadowValue c value = .ok (value.mapObject c.sourceOf) :=
  (hw.compacting hphase).2.normalizeShadowValue_eq_ok hphase hv h'

theorem fieldStore_pair {left right : Value} (hp : o.payload = .pair left right)
    (field : PairField) : FieldStore o true value (field.store left right value) := by
  have hwidth : o.width = 1 := by rw [Object.width, hp]; rfl
  have hmutable : o.payload.kind ≠ .str := by
    rw [hp]
    intro hno
    cases hno
  have hnoMap : ∀ m, field.store left right value ≠ .map m := by
    intro m hno
    cases field <;> cases hno
  cases field <;> refine ⟨by rw [hp]; rfl, hmutable, hwidth.symm, ?_, ?_, hnoMap⟩ <;>
    intro v hv <;>
    simp only [PairField.store, Payload.allFields, Payload.referenceFields, Payload.weakFields,
      List.append_nil, List.mem_cons, List.not_mem_nil, or_false, hp] at hv ⊢ <;>
    tauto

theorem wp_storePairField (hw : h.Wf) (field : PairField) (hv : h.Valid value)
    (hstale : ¬h.RemembersStale id value)
    (hafter : h.AfterStore id (fun p p' => ∃ left right, p = .pair left right ∧
      p' = field.store left right (value.mapObject h.canonical)) Q E) :
    wp (storePairField id field value) Q E h := by
  have hfailed : ∀ e, E e h := fun e => hafter.failed e h (.refl hw)
  unfold storePairField
  refine wp_query_ok (hw.canonicalize_eq_ok hv) ?_
  refine wp_query_bind (fun found hfound => ?_) fun e _ => hfailed e
  obtain ⟨slot, o, left, right⟩ := found
  obtain ⟨hr, hp⟩ := checkedPair_eq_ok hfound
  have hv' := hw.storage.valid_canonical hv
  refine wp_publishField hw hr (fieldStore_pair hp field)
    (fun _ hstale' => hstale (hstale'.of_canonical hw.storage)) ?_ nofun ⟨left, right, hp, rfl⟩
    hafter
  intro c hphase h'
  rw [hp]
  show _ <$> h'.normalizeShadowValue c _ = _
  rw [hw.normalizeShadowValue_eq_ok hphase hv' h']
  cases field <;> rfl

theorem wp_arraySet (hw : h.Wf) (element : Int64)
    (hafter : h.AfterStore id (fun p p' => ∃ elements, index < elements.length ∧
      p = .scalarArray elements ∧ p' = .scalarArray (elements.set index element)) Q E) :
    wp (arraySet id index element) Q E h := by
  have hfailed : ∀ e, E e h := fun e => hafter.failed e h (.refl hw)
  unfold arraySet
  refine wp_query_bind (fun found hfound => ?_) fun e _ => hfailed e
  obtain ⟨slot, o, elements⟩ := found
  obtain ⟨hr, hp⟩ := checkedScalarArray_eq_ok hfound
  refine wp_ite (fun _ => hfailed _) fun hindex => ?_
  have hf : FieldStore o false (.int64 element) (.scalarArray (elements.set index element)) := by
    have hmutable : o.payload.kind ≠ .str := by
      rw [hp]
      intro hno
      cases hno
    refine ⟨by rw [hp]; rfl, hmutable, ?_, ?_, ?_, ?_⟩
    · rw [Object.width, hp]
      simp only [Payload.storageSlotCount, List.length_set]
    all_goals
      intro v hno
      cases hno
  have hroots : ∀ v ∈ ([] : List Value), h.Valid v := List.forall_mem_nil _
  refine wp_publishField hw hr hf (fun hno => Bool.noConfusion hno) (fun c _ h' => ?_) hroots
    ⟨elements, Nat.not_le.mp hindex, hp, rfl⟩ hafter
  rw [hp]
  exact if_neg hindex

theorem fieldStore_refArray {elements : List Value} (hp : o.payload = .refArray elements) :
    FieldStore o true value (.refArray (elements.set index value)) := by
  have hmem : ∀ v ∈ elements.set index value, v ∈ elements ∨ true = true ∧ v = value :=
    fun v hv => (List.mem_or_eq_of_mem_set hv).imp_right fun heq => ⟨rfl, heq⟩
  refine ⟨by rw [hp]; rfl, by rw [hp]; exact nofun, ?_, ?_, ?_, nofun⟩
  · rw [Object.width, hp]
    simp only [Payload.storageSlotCount, List.length_set]
  · simp only [Payload.allFields, Payload.referenceFields, Payload.weakFields, List.append_nil, hp]
    exact fun v hv => (hmem v hv).imp_right fun hand => ⟨trivial, hand.2⟩
  · rw [hp]
    exact hmem

theorem wp_storeRefArrayElement (hw : h.Wf) (hv : h.Valid value)
    (hstale : ¬h.RemembersStale id value)
    (hafter : h.AfterStore id (fun p p' => ∃ elements, index < elements.length ∧
      p = .refArray elements ∧
        p' = .refArray (elements.set index (value.mapObject h.canonical))) Q E) :
    wp (storeRefArrayElement id index value) Q E h := by
  have hfailed : ∀ e, E e h := fun e => hafter.failed e h (.refl hw)
  unfold storeRefArrayElement
  refine wp_query_bind (fun _ _ => ?_) fun e _ => hfailed e
  refine wp_query_ok (hw.canonicalize_eq_ok hv) ?_
  refine wp_query_bind (fun found hfound => ?_) fun e _ => hfailed e
  obtain ⟨slot, o, elements⟩ := found
  obtain ⟨hr, hp⟩ := checkedRefArray_eq_ok hfound
  refine wp_ite (fun _ => hfailed _) fun hindex => ?_
  have hv' := hw.storage.valid_canonical hv
  refine wp_publishField hw hr (fieldStore_refArray hp)
    (fun _ hstale' => hstale (hstale'.of_canonical hw.storage)) (fun c hphase h' => ?_) nofun
    ⟨elements, Nat.not_le.mp hindex, hp, rfl⟩ hafter
  have hlength : ¬(elements.map (Value.mapObject c.sourceOf)).length ≤ index := by
    rwa [List.length_map]
  rw [hp]
  show (if (elements.map (Value.mapObject c.sourceOf)).length ≤ index then _ else _) = _
  rw [if_neg hlength, hw.normalizeShadowValue_eq_ok hphase hv' h', ok_map]
  show Except.ok (Payload.refArray _) = Except.ok (Payload.refArray _)
  rw [List.map_set]
  rfl

/-! ### Records and ephemerons -/

/-- The operand of a field store is valid and canonical. -/
theorem Wf.fieldOperand_of_ok (hw : h.Wf) {isRef : Bool} {operand : Value} {m m' : String}
    (hok : h.fieldOperand isRef value m m' = .ok operand) :
    operand = value.mapObject h.canonical ∧ h.Valid value ∧
      (isRef = false → value.isObject = false) := by
  unfold fieldOperand at hok
  cases isRef with
  | true =>
    rw [if_pos rfl] at hok
    cases value with
    | object target =>
      obtain ⟨slot, hslot, hrest⟩ := bind_eq_ok.mp hok
      obtain ⟨o, hr⟩ := checkedSlot_eq_ok.mp hslot
      have hv : h.Valid (.object target) := valid_object.mpr ⟨slot, o, hr⟩
      rw [hw.canonicalize_eq_ok hv] at hrest
      exact ⟨(Except.ok.inj hrest).symm, hv, nofun⟩
    | nil => exact ⟨(Except.ok.inj hok).symm, valid_nil, nofun⟩
    | _ => exact nomatch hok
  | false =>
    rw [if_neg Bool.false_ne_true] at hok
    cases value with
    | int64 v => exact ⟨(Except.ok.inj hok).symm, valid_int64 v, fun _ => rfl⟩
    | bool b => exact ⟨(Except.ok.inj hok).symm, valid_bool b, fun _ => rfl⟩
    | _ => exact nomatch hok

theorem Wf.shadowFieldValue_eq_ok (hw : h.Wf) {c : IncrementalCompaction}
    (hphase : h.phase = .compacting c) (isRef : Bool) (hv : h.Valid value) (h' : Heap) :
    h'.shadowFieldValue c isRef value =
      .ok (if isRef then value.mapObject c.sourceOf else value) := by
  cases isRef with
  | true => exact hw.normalizeShadowValue_eq_ok hphase hv h'
  | false => rfl

theorem mem_markedFields_set {fields : List Value} {refMap : List Bool} {v : Value}
    (hv : v ∈ markedFields (fields.set index value) refMap) :
    v ∈ markedFields fields refMap ∨ refMap.getD index false = true ∧ v = value := by
  induction fields generalizing index refMap with
  | nil => exact .inl hv
  | cons field fields ih =>
    cases refMap with
    | nil => cases index <;> exact nomatch hv
    | cons isRef refMap =>
      cases index with
      | zero =>
        cases isRef with
        | true =>
          rcases List.mem_cons.mp hv with rfl | hmem
          · exact .inr ⟨rfl, rfl⟩
          · exact .inl (List.mem_cons_of_mem _ hmem)
        | false => exact .inl hv
      | succ index =>
        cases isRef with
        | true =>
          rcases List.mem_cons.mp hv with rfl | hmem
          · exact .inl List.mem_cons_self
          · exact (ih hmem).imp_left (List.mem_cons_of_mem _)
        | false => exact ih hv

theorem length_mapMarkedFields (f : ObjectId → ObjectId) (fields : List Value)
    (refMap : List Bool) : (mapMarkedFields f fields refMap).length = fields.length := by
  induction fields generalizing refMap with
  | nil => rfl
  | cons field fields ih =>
    cases refMap with
    | nil => rfl
    | cons isRef refMap => exact congrArg (· + 1) (ih refMap)

theorem mapMarkedFields_set (f : ObjectId → ObjectId) (fields : List Value) (refMap : List Bool)
    (index : ℕ) : mapMarkedFields f (fields.set index value) refMap =
      (mapMarkedFields f fields refMap).set index
        (if refMap.getD index false then value.mapObject f else value) := by
  induction fields generalizing refMap index with
  | nil => rfl
  | cons field fields ih =>
    cases refMap with
    | nil => cases index <;> rfl
    | cons isRef refMap =>
      cases index with
      | zero => rfl
      | succ index => exact congrArg (_ :: ·) (ih refMap index)

theorem wp_storeRecordField (hw : h.Wf) (hstale : ¬h.RemembersStale id value)
    (hafter : h.AfterStore id (fun p p' => ∃ l fields refMap, index < fields.length ∧
      p = .record l fields refMap ∧
        p' = .record l (fields.set index (value.mapObject h.canonical)) refMap) Q E) :
    wp (storeRecordField id index value) Q E h := by
  have hfailed : ∀ e, E e h := fun e => hafter.failed e h (.refl hw)
  unfold storeRecordField
  refine wp_query_bind (fun found hfound => ?_) fun e _ => hfailed e
  obtain ⟨slot, o, l, fields, refMap⟩ := found
  obtain ⟨hr, hp⟩ := checkedRecord_eq_ok hfound
  refine wp_ite (fun _ => hfailed _) fun hindex => ?_
  refine wp_query_bind (fun operand hoperand => ?_) fun e _ => hfailed e
  obtain ⟨rfl, hv, -⟩ := hw.fieldOperand_of_ok hoperand
  have hv' := hw.storage.valid_canonical hv
  have hf : FieldStore o (refMap.getD index false) (value.mapObject h.canonical)
      (.record l (fields.set index (value.mapObject h.canonical)) refMap) := by
    refine ⟨by rw [hp]; rfl, by rw [hp]; exact nofun, ?_, ?_, ?_, nofun⟩
    · rw [Object.width, hp]
      simp only [Payload.storageSlotCount, List.length_set]
    · simp only [Payload.allFields, Payload.referenceFields, Payload.weakFields, List.append_nil,
        hp]
      exact fun _ => mem_markedFields_set
    · rw [hp]
      exact fun _ => mem_markedFields_set
  refine wp_publishField hw hr hf (fun _ hstale' => hstale (hstale'.of_canonical hw.storage))
    (fun c hphase h' => ?_) ?_ ⟨l, fields, refMap, Nat.not_le.mp hindex, hp, rfl⟩ hafter
  · have hlength : ¬(mapMarkedFields c.sourceOf fields refMap).length ≤ index := by
      rwa [length_mapMarkedFields]
    rw [hp]
    show (if (mapMarkedFields c.sourceOf fields refMap).length ≤ index ∨
      refMap.getD index false ≠ refMap.getD index false then _ else _) = _
    rw [if_neg (by simpa using hlength), hw.shadowFieldValue_eq_ok hphase _ hv' h', ok_map]
    show Except.ok (Payload.record _ _ _) = Except.ok (Payload.record _ _ _)
    rw [mapMarkedFields_set]
    rfl
  · intro v hmem
    rcases List.mem_cons.mp hmem with rfl | hmem
    · exact valid_object.mpr ⟨slot, o, hr⟩
    · rw [List.mem_singleton.mp hmem]
      exact hv'

theorem wp_storeEphemeronValue (hw : h.Wf) (hstale : ¬h.RemembersStale id value)
    (hafter : h.AfterStore id (fun p p' => ∃ key old valueIsRef, key.isNil = false ∧
      p = .ephemeron key old valueIsRef ∧
        p' = .ephemeron key (value.mapObject h.canonical) valueIsRef) Q E) :
    wp (storeEphemeronValue id value) Q E h := by
  have hfailed : ∀ e, E e h := fun e => hafter.failed e h (.refl hw)
  unfold storeEphemeronValue
  refine wp_query_bind (fun found hfound => ?_) fun e _ => hfailed e
  obtain ⟨slot, o, key, old, valueIsRef⟩ := found
  obtain ⟨hr, hp⟩ := checkedEphemeron_eq_ok hfound
  refine wp_ite (fun _ => hfailed _) fun hkey => ?_
  refine wp_query_bind (fun operand hoperand => ?_) fun e _ => hfailed e
  obtain ⟨rfl, hv, -⟩ := hw.fieldOperand_of_ok hoperand
  have hv' := hw.storage.valid_canonical hv
  have hf : FieldStore o valueIsRef (value.mapObject h.canonical)
      (.ephemeron key (value.mapObject h.canonical) valueIsRef) := by
    have hmutable : o.payload.kind ≠ .str := by
      rw [hp]
      intro hno
      cases hno
    refine ⟨by rw [hp]; rfl, hmutable, by rw [Object.width, hp]; rfl, ?_,
      (fun _ hno => by cases hno), fun _ hno => by cases hno⟩
    intro v hmem
    cases valueIsRef <;>
      simp only [Payload.allFields, Payload.referenceFields, Payload.weakFields, List.nil_append,
        if_true, Bool.false_eq_true, if_false, List.mem_cons, List.not_mem_nil, or_false, hp]
        at hmem ⊢ <;>
      tauto
  refine wp_publishField hw hr hf (fun _ hstale' => hstale (hstale'.of_canonical hw.storage))
    (fun c hphase h' => ?_) ?_ ⟨key, old, valueIsRef, Bool.eq_false_iff.mpr hkey, hp, rfl⟩ hafter
  · -- the key of an ephemeron that has not been cleared is an object
    have hshape := o.shape
    rw [hp] at hshape ⊢
    cases key with
    | object keyId =>
      show (if valueIsRef ≠ valueIsRef then _ else _) = _
      rw [if_neg (not_not.mpr rfl), hw.shadowFieldValue_eq_ok hphase _ hv' h']
      rfl
    | nil => exact absurd rfl hkey
    | _ => cases hshape
  · intro v hmem
    rcases List.mem_cons.mp hmem with rfl | hmem
    · exact valid_object.mpr ⟨slot, o, hr⟩
    · rw [List.mem_singleton.mp hmem]
      exact hv'

end Stores

end Heap

end LanguageRuntime.Gc
