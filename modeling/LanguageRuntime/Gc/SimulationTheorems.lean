import LanguageRuntime.Gc.BuilderTheorems
import LanguageRuntime.Gc.LookupTheorems

/-!
# Operations as steps of the store

Every public operation that returns takes the step of the store, and one that throws leaves at most
a collection behind, unless the heap has exceeded its limits.
-/

namespace LanguageRuntime.Gc

open LanguageRuntime LanguageRuntime.Library

namespace Heap

/-! ## Stores -/

section Stores

variable {h h₁ h₂ h' : Heap} {id id₁ : ObjectId} {slot index : ℕ} {o : Object} {d : Descriptor}
  {op : Operation} {value : Value} {cells cells₁ : List Value} {R : Payload → Payload → Prop}
  {p : Payload}

theorem owner_mapIds (f : ObjectId → ObjectId) : (op.mapIds f).owner = op.owner.map f := by
  cases op <;> rfl

/-- The number of an object does not depend on which of its identifiers names it. -/
theorem Storage.numberValue_canonical (hst : h.Storage) (hv : h.Valid value) :
    h.numberValue (value.mapObject h.canonical) = h.numberValue value := by
  cases value with
  | object id =>
    obtain ⟨slot, o, hr⟩ := valid_object.mp hv
    rw [Value.mapObject_object, numberValue_object hr, numberValue_object (hst.resolve_canonical hr)]
  | _ => rfl

/-- What is valid after a store has been so before. -/
theorem Stored.valid (hs : h.Stored h' slot o d) (ho : h.objectAt slot = some o)
    (hv : h'.Valid value) : h.Valid value := by
  obtain ⟨-, h₁, hb, hp⟩ := hs
  have hu := hp.updates (R := fun _ _ => True) ((hb.objectAt slot).trans ho)
    (fun _ => trivial) trivial
  rintro id rfl
  obtain ⟨slot', o', hr'⟩ := hv id rfl
  obtain ⟨o₁, hr₁, -⟩ := hu.symm.resolve hr'
  exact ⟨slot', o₁, hb.resolve_iff.mp hr₁⟩

theorem Stored.fields (hs : h.Stored h' slot o d) (ho : h.objectAt slot = some o) :
    ∀ value ∈ d.val.allFields, h.Valid value := by
  intro value hvalue
  have hself : h'.objectAt slot = some (o.withPayload d) := by rw [hs.objectAt ho, if_pos rfl]
  exact hs.valid ho (hs.1.fields slot _ hself value hvalue)

/-- A store after a movement, and a collection after it. -/
theorem Stored.takes (hst : h₁.Stored h₂ slot o d) (hbefore : h.store.Collects h₁.store)
    (hs : h.Stands) (hs₁ : h₁.Stands) (hr : h₁.resolve id₁ = .ok (slot, o))
    (howner : op.owner = some id) (hname : h₁.numberId id₁ = h.numberId id)
    (hp : h₁.store.newFields (op.mapIds h.numberId) (h₁.numberPayload o.payload) =
      some (h₁.numberPayload d.val))
    (hafter : h₂.Evolves h' [] []) (hw' : h'.Wf) : h.Takes h' op none := by
  have ho := objectAt_of_resolve hr
  have hfields := hst.fields ho
  have hn₂ := hst.numbered ho hs₁.numbered
  have hstored := hst.store_eq ho hs₁.toWf hs₁.numbered hfields
  have hslot : (h.numberId id).slot = o.serial := by
    rw [← hname, numberId_of_resolve hr, numbered_slot]
  have howner' : (op.mapIds h.numberId).owner = some (h.numberId id) := by
    rw [owner_mapIds, howner, Option.map_some]
  have hobject : h₁.store.objects (h.numberId id).slot = some (h₁.numberPayload o.payload) := by
    rw [hslot, store_objects_of_objectAt hs₁.numbered ho]
  refine takes_of_step hs hw' (hafter.numbered hn₂) (.stores howner' hbefore hobject hp ?_ ?_)
  · exact fun id hid => alive_of_mem_numberPayload hs₁.numbered d.property hfields hid
  · rw [hslot, ← hstored]
    exact hafter.collects hst.1 hw' hn₂

/-- The collection after a hit barrier. -/
theorem wp_collectAfterBarrier_evolves (hw : h.Wf) (triggered : Bool)
    (hcells : ∀ value ∈ cells, h.Valid value) :
    wp (collectAfterBarrier triggered cells) (fun _ h' => h'.Wf ∧ h.Evolves h' [] [])
      (fun _ h' => h'.Exhausted ∨ h'.Oversized) h := by
  unfold collectAfterBarrier
  rw [wp_bind, wp_get]
  refine wp_ite (fun _ => ?_) fun _ => ⟨hw, evolves_refl hw.toSound nofun⟩
  rw [wp_bind]
  exact wp_mono (wp_and (wp_collectImpl_evolves hw hcells) (wp_collectImpl_spent hw hcells))
    (fun _ _ hpost => ⟨hpost.1.1, hpost.1.2.2.alone⟩) fun _ _ he => he.2

/-- The rest of a store into the object that `id₁` names, after a movement from `h`. -/
theorem afterStore_takes (hbefore : h.store.Collects h₁.store) (hs : h.Stands) (hs₁ : h₁.Stands)
    (hends : ∀ h', h₁.Barriered h' → h.Ends h') (howner : op.owner = some id)
    (hname : h₁.numberId id₁ = h.numberId id)
    (hp : ∀ slot o (d : Descriptor), h₁.resolve id₁ = .ok (slot, o) → R o.payload d.val →
      (∀ value ∈ d.val.allFields, h₁.Valid value) →
      h₁.store.newFields (op.mapIds h.numberId) (h₁.numberPayload o.payload) =
        some (h₁.numberPayload d.val)) :
    h₁.AfterStore id₁ R (fun _ h' => h.Leaves h' op none) (fun _ h' => h.Ends h') where
  stored slot o d h₂ triggered roots hr hrel hst hroots := by
    have hfields := hst.fields (objectAt_of_resolve hr)
    refine wp_mono (wp_collectAfterBarrier_evolves hst.1 triggered hroots)
      (fun _ h' hpost => .inl ?_) fun _ _ hspent => .inr hspent
    exact hst.takes hbefore hs hs₁ hr howner hname (hp slot o d hr hrel hfields) hpost.2 hpost.1
  failed _ h' hb := hends h' hb

/-- A store without a movement before it. -/
theorem afterStore_takes_self (hs : h.Stands) (howner : op.owner = some id)
    (hp : ∀ (p p' : Payload), R p p' → p.DescriptorShape → p'.DescriptorShape →
      (∀ value ∈ p.allFields, h.Valid value) → (∀ value ∈ p'.allFields, h.Valid value) →
      h.store.newFields (op.mapIds h.numberId) (p.rename h.numberId).visible =
        some (p'.rename h.numberId).visible) :
    h.AfterStore id R (fun _ h' => h.Leaves h' op none) (fun _ h' => h.Ends h') := by
  have hnone : ∀ value ∈ ([] : List Value), h.Valid value := nofun
  have hends : ∀ h', h.Barriered h' → h.Ends h' := fun h' hb =>
    (hb.evolves hs.toSound hnone).ends hb.wf
  refine afterStore_takes hs.sound.collects hs hs hends howner rfl fun slot o d hr hrel hfields => ?_
  have hold := hs.fields slot o (objectAt_of_resolve hr)
  rw [numberPayload_eq_rename o.shape hold, numberPayload_eq_rename d.property hfields]
  exact hp _ _ hrel o.shape d.property hold hfields

theorem takes_storePairField (hs : h.Stands) (field : PairField) (hv : h.Valid value)
    (hstale : ¬h.RemembersStale id value) :
    wp (storePairField id field value) (fun _ h' => h.Leaves h' (.setField id field value) none)
      (fun _ h' => h.Ends h') h := by
  refine wp_storePairField hs.toWf field hv hstale (afterStore_takes_self hs rfl ?_)
  rintro p p' ⟨left, right, rfl, rfl⟩ - - - -
  have hvalue := hs.storage.numberValue_canonical hv
  cases field with
  | left =>
    show some (Payload.pair (h.numberValue value) _) = some (Payload.pair (h.numberValue _) _)
    rw [hvalue]
  | right =>
    show some (Payload.pair _ (h.numberValue value)) = some (Payload.pair _ (h.numberValue _))
    rw [hvalue]

theorem takes_arraySet (hs : h.Stands) (element : Int64) :
    wp (arraySet id index element) (fun _ h' => h.Leaves h' (.arraySet id index element) none)
      (fun _ h' => h.Ends h') h := by
  refine wp_arraySet hs.toWf element (afterStore_takes_self hs rfl ?_)
  rintro p p' ⟨elements, hindex, rfl, rfl⟩ - - - -
  exact if_pos hindex

theorem takes_storeRefArrayElement (hs : h.Stands) (hv : h.Valid value)
    (hstale : ¬h.RemembersStale id value) :
    wp (storeRefArrayElement id index value)
      (fun _ h' => h.Leaves h' (.refArraySet id index value) none) (fun _ h' => h.Ends h') h := by
  refine wp_storeRefArrayElement hs.toWf hv hstale (afterStore_takes_self hs rfl ?_)
  rintro p p' ⟨elements, hindex, rfl, rfl⟩ - - - -
  have hindex' : index < (elements.map h.numberValue).length := by rwa [List.length_map]
  refine (if_pos hindex').trans ?_
  show some (Payload.refArray ((elements.map h.numberValue).set index (h.numberValue value))) =
    some (Payload.refArray ((elements.set index _).map h.numberValue))
  rw [List.map_set, hs.storage.numberValue_canonical hv]

theorem takes_storeRecordField (hs : h.Stands) (hv : h.Valid value)
    (hstale : ¬h.RemembersStale id value) :
    wp (storeRecordField id index value)
      (fun _ h' => h.Leaves h' (.recordSet id index value) none) (fun _ h' => h.Ends h') h := by
  refine wp_storeRecordField hs.toWf hstale (afterStore_takes_self hs rfl ?_)
  rintro p p' ⟨l, fields, refMap, hindex, rfl, rfl⟩ - - - -
  have hindex' : index < (fields.map h.numberValue).length := by rwa [List.length_map]
  refine (if_pos hindex').trans ?_
  show some (Payload.record l ((fields.map h.numberValue).set index (h.numberValue value)) refMap) =
    some (Payload.record l ((fields.set index _).map h.numberValue) refMap)
  rw [List.map_set, hs.storage.numberValue_canonical hv]

theorem takes_storeEphemeronValue (hs : h.Stands) (hv : h.Valid value)
    (hstale : ¬h.RemembersStale id value) :
    wp (storeEphemeronValue id value)
      (fun _ h' => h.Leaves h' (.ephemeronSetValue id value) none) (fun _ h' => h.Ends h') h := by
  refine wp_storeEphemeronValue hs.toWf hstale (afterStore_takes_self hs rfl ?_)
  rintro p p' ⟨key, old, valueIsRef, hkey, rfl, rfl⟩ - - - -
  have hkey' : ¬(key.mapObject h.numberId).isNil = true := by
    cases key with
    | nil => cases hkey
    | _ => exact Bool.false_ne_true
  refine (if_neg hkey').trans ?_
  show some (Payload.ephemeron _ (h.numberValue value) valueIsRef) =
    some (Payload.ephemeron _ (h.numberValue _) valueIsRef)
  rw [hs.storage.numberValue_canonical hv]

end Stores

/-! ## Builders -/

section Builders

variable {h h₁ h₂ h' : Heap} {id id₁ : ObjectId} {slot capacity : ℕ} {o : Object} {d : Descriptor}
  {value : Value} {cells cells' : List Value} {bytes appended : List UInt8}

theorem checkedString_of_resolve (hr : h.resolve id = .ok (slot, o)) (hp : o.payload = .str bytes) :
    h.checkedString id = .ok bytes :=
  checkedString_eq_ok.mpr ⟨slot, o, hr, hp⟩

/-- The builder and the string follow, with what they hold. -/
theorem Evolves.appendable (he : h.Evolves h' cells cells')
    (ha : h.Appendable cells slot o capacity bytes appended) :
    ∃ slot' o', h'.Appendable cells' slot' o' capacity bytes appended := by
  obtain ⟨φ, F, hF, hcells, -⟩ := he
  obtain ⟨⟨ownerId, howner, hfound⟩, sourceId, hsource, happended⟩ := ha
  obtain ⟨hr, hp⟩ := checkedBuilder_eq_ok hfound
  obtain ⟨slot₁, o₁, hr₁, hp₁⟩ := checkedString_eq_ok.mp happended
  cases hcells with
  | nil => exact nomatch howner
  | cons hf hrest =>
    cases hrest with
    | nil => exact nomatch hsource
    | cons hg _ =>
      cases asObject_eq_ok howner
      cases asObject_eq_ok hsource
      obtain ⟨id', slot', o', rfl, hr', -, hp'⟩ := hF.named hf hr
      obtain ⟨id₁', slot₁', o₁', rfl, hr₁', -, hp₁'⟩ := hF.named hg hr₁
      have hbuilder : o'.payload = .builder capacity bytes := by
        rw [hp', hp]
        rfl
      have hstring : o₁'.payload = .str appended := by
        rw [hp₁', hp₁]
        rfl
      exact ⟨slot', o', ⟨id', rfl, checkedBuilder_of_resolve hr' hbuilder⟩, id₁', rfl,
        checkedString_of_resolve hr₁' hstring⟩

/-- Another payload of the builder leaves the string alone. -/
theorem Stored.appendable {capacity' : ℕ} {bytes' : List UInt8} (hs : h.Stored h' slot o d)
    (ha : h.Appendable cells slot o capacity bytes appended)
    (hd : d.val = .builder capacity' bytes') :
    h'.Appendable cells slot (o.withPayload d) capacity' bytes' appended := by
  obtain ⟨⟨ownerId, howner, hfound⟩, sourceId, hsource, happended⟩ := ha
  obtain ⟨hr, hp⟩ := checkedBuilder_eq_ok hfound
  obtain ⟨slot₁, o₁, hr₁, hp₁⟩ := checkedString_eq_ok.mp happended
  have ho := objectAt_of_resolve hr
  obtain ⟨o', hr', -⟩ := hs.resolve ho hr
  have hself := hs.objectAt ho slot
  rw [if_pos rfl, objectAt_of_resolve hr'] at hself
  cases hself
  obtain ⟨o₁', hr₁', -, hother⟩ := hs.resolve ho hr₁
  have hne : slot₁ ≠ slot := by
    rintro rfl
    rw [objectAt_of_resolve hr₁] at ho
    cases ho
    rw [hp] at hp₁
    cases hp₁
  exact ⟨⟨ownerId, howner, checkedBuilder_of_resolve hr' hd⟩, sourceId, hsource,
    checkedString_of_resolve hr₁' (hother hne ▸ hp₁)⟩

/-- A growth leaves the builder of the store as it is. -/
theorem BuilderGrown.collects (hg : h.BuilderGrown h' cells cells') (hs : h.Stands)
    (hcells : ∀ value ∈ cells, h.Valid value)
    (ha : h.Appendable cells slot o capacity bytes appended) :
    ∃ slot' o' grown, h'.Stands ∧ h'.Appendable cells' slot' o' grown bytes appended ∧
      h.store.Collects h'.store ∧ cells'.map h'.numberValue = cells.map h.numberValue ∧
      builderCapacityForRequired capacity (bytes.length + appended.length) = .ok grown := by
  obtain ⟨slot₁, o₁, capacity₁, bytes₁, appended₁, width, grown, h₂, id₂, slot₂, o₂, d, ha₁,
    hgrown, hgrew, hw₂, hcell, hr₂, hp₂, hd, hstored⟩ := hg
  obtain ⟨rfl, rfl, rfl, rfl, rfl⟩ := ha.unique ha₁
  have hevolves : h.Evolves h₂ cells cells' := hgrew.evolves hs.toSound hcells
  have hs₂ := hevolves.stands hs hw₂
  obtain ⟨slot₃, o₃, ha₃⟩ := hevolves.appendable ha
  -- the growth has found the builder where the cells name it
  have hsame : slot₃ = slot₂ ∧ o₃ = o₂ := by
    obtain ⟨⟨ownerId, howner, hfound⟩, -⟩ := ha₃
    rw [hcell] at howner
    cases howner
    rw [checkedBuilder_of_resolve hr₂ hp₂] at hfound
    cases hfound
    exact ⟨rfl, rfl⟩
  obtain ⟨rfl, rfl⟩ := hsame
  have ho := objectAt_of_resolve hr₂
  have hstore := hstored.store_eq ho hw₂ hs₂.numbered (hstored.fields ho)
  have hobject := store_objects_of_objectAt hs₂.numbered ho
  -- the store does not see the capacity
  have hsame : h₂.numberPayload d.val = h₂.numberPayload o₃.payload := by
    rw [hd, hp₂]
    rfl
  rw [hsame, Store.updated_self hobject] at hstore
  have hn' := hstored.numbered ho hs₂.numbered
  refine ⟨slot₃, _, grown, ⟨hstored.1, hn', hstore ▸ hs₂.sound⟩, hstored.appendable ha₃ hd, ?_, ?_,
    hgrown⟩
  · rw [hstore]
    exact hevolves.collects hs.toWf hw₂ hs.numbered
  · rw [← hevolves.map_numberValue]
    exact map_numberValue_congr (fun id hid => hstored.number_eq ho hid) hevolves.valid

/-- The bytes of the string are appended, after a growth or without one. -/
theorem Appendable.takes (ha : h₁.Appendable cells slot o capacity bytes appended)
    (hbefore : h.store.Collects h₁.store) (hs : h.Stands) (hs₁ : h₁.Stands)
    (hcells : cells.map h₁.numberValue = [.object id, value].map h.numberValue)
    (hfits : bytes.length + appended.length ≤ capacity) :
    wp (publishAppended cells) (fun _ h' => h.Leaves h' (.builderAppend id value) none)
      (fun _ h' => h.Ends h') h₁ := by
  have happend := ha
  obtain ⟨⟨ownerId, howner, hfound⟩, sourceId, hsource, happended⟩ := ha
  obtain ⟨hr, hp⟩ := checkedBuilder_eq_ok hfound
  obtain ⟨hownerName, hsourceName⟩ := operands_eq hcells
  rw [asObject_eq_ok howner] at hownerName
  rw [asObject_eq_ok hsource] at hsourceName
  refine wp_mono (wp_publishAppended hs₁.toWf happend hfits) (fun _ h' hpost => .inl ?_)
    fun _ _ he => he.elim
  obtain ⟨d, hd, hstored⟩ := hpost
  have hself : h'.Evolves h' [] [] := evolves_refl hstored.1.toSound nofun
  refine hstored.takes hbefore hs hs₁ hr rfl (Value.object.inj hownerName) ?_ hself hstored.1
  have hbytes := bytes_of_checkedString hs₁.numbered happended
  rw [hsourceName] at hbytes
  rw [hd, hp]
  show (h₁.store.bytes (h.numberValue value) >>= fun b => _) = _
  rw [hbytes]
  rfl

theorem takes_builderAppend (hs : h.Stands) (hid : h.Valid (.object id)) (hvalue : h.Valid value) :
    wp (builderAppend id value) (fun _ h' => h.Leaves h' (.builderAppend id value) none)
      (fun _ h' => h.Ends h') h := by
  have hw := hs.toWf
  have hnames : [.object (h.canonical id), value.mapObject h.canonical].map h.numberValue =
      [.object id, value].map h.numberValue := by
    have hname : h.numberValue (.object (h.canonical id)) = h.numberValue (.object id) :=
      hw.storage.numberValue_canonical hid
    rw [List.map_cons, List.map_cons, hname, hw.storage.numberValue_canonical hvalue]
    rfl
  refine wp_builderAppend_of hw hid hvalue (fun _ => ends_refl hw) ?_ ?_
  · intro slot o capacity bytes appended _ ha hfits
    exact ha.takes hs.sound.collects hs hs hnames hfits
  · intro slot o capacity bytes appended _ ha _ hvalid
    have hfinish := wp_mono (wp_finishActiveCompaction_evolves hw hvalid)
      (fun _ _ hpost => hpost.2.2) fun _ _ he => he
    rw [wp_bind]
    refine wp_mono (wp_growBuilder hw hvalid hfinish) (fun cells' h₂ hpost => ?_) fun _ h' he => ?_
    · rcases hpost with ⟨h₁, cells₁, hfinished, hw₁, -, hcells₁, hgrown⟩ | hoversized
      · have hs₁ := hfinished.stands hs hw₁
        obtain ⟨slot₁, o₁, ha₁⟩ := hfinished.appendable ha
        obtain ⟨slot₂, o₂, grown, hs₂, ha₂, hcollects, hcells₂, hok⟩ :=
          hgrown.collects hs₁ hcells₁ ha₁
        have hcapacity := o₁.shape
        obtain ⟨ownerId, -, hfound⟩ := ha₁.owner
        rw [(checkedBuilder_eq_ok hfound).2] at hcapacity
        have hroom := isBuilderCapacity_grown (shape_builder.mp hcapacity).2 hok
        refine ha₂.takes ((hfinished.collects hw hw₁ hs.numbered).trans hcollects) hs hs₂ ?_ hroom.1
        rw [hcells₂, hfinished.map_numberValue, hnames]
      · have hpublish := publishAppended_preserves .oversized cells'
        exact wp_mono (hpublish h₂ hoversized) (fun _ _ ho => .inr (.inr ho))
          fun _ _ ho => .inr (.inr ho)
    · rcases he with ⟨hw', cells₁, hfinished⟩ | hoversized
      · exact hfinished.ends hw'
      · exact .inr (.inr hoversized)

theorem takes_builderClear (hs : h.Stands) (hid : h.Valid (.object id)) :
    wp (builderClear id) (fun _ h' => h.Leaves h' (.builderClear id) none)
      (fun _ h' => h.Ends h') h := by
  refine wp_mono (wp_builderClear hs.toWf hid) (fun _ h' hpost => .inl ?_)
    fun _ _ heq => heq.symm ▸ ends_refl hs.toWf
  obtain ⟨slot, o, d, capacity, bytes, hr, hp, hd, hstored⟩ := hpost
  have hself : h'.Evolves h' [] [] := evolves_refl hstored.1.toSound nofun
  refine hstored.takes hs.sound.collects hs hs hr rfl rfl ?_ hself hstored.1
  rw [hd, hp]
  rfl

end Builders

/-! ## Maps -/

section Maps

variable {h h₁ h₂ h' : Heap} {id id₁ : ObjectId} {slot slot₁ : ℕ} {o o₁ : Object}
  {m m₁ newMap : MapPayload} {key value key₁ value₁ : Value} {existing : Option ℕ}

/-- An insertion appends an entry. -/
theorem insert_eq_ok (hok : m.insert h key value = .ok newMap) :
    newMap = { m with
      entries := m.entries ++ [⟨key, value⟩], lookupIndex := newMap.lookupIndex } := by
  unfold MapPayload.insert at hok
  obtain ⟨capacity, -, hok⟩ := bind_eq_ok.mp hok
  obtain ⟨hash, -, hok⟩ := bind_eq_ok.mp hok
  dsimp only at hok
  split at hok
  all_goals
    obtain ⟨before, -, hok⟩ := bind_eq_ok.mp hok
    obtain ⟨bucket, -, hok⟩ := bind_eq_ok.mp hok
    obtain ⟨encoded, -, hok⟩ := bind_eq_ok.mp hok
    cases hok
    rfl

theorem numberMap_overwrite (h : Heap) (m : MapPayload) (entry : ℕ) (value : Value) :
    h.numberMap (m.overwrite entry value) = (h.numberMap m).overwrite entry (h.numberValue value) := by
  have hentries : (m.entries.modify entry fun e => { e with value := value }).map
        (fun e => (⟨h.numberValue e.key, h.numberValue e.value⟩ : MapEntry)) =
      (m.entries.map fun e => ⟨h.numberValue e.key, h.numberValue e.value⟩).modify entry
        fun e => { e with value := h.numberValue value } := by
    refine List.ext_getElem? fun i => ?_
    simp only [List.getElem?_map, List.getElem?_modify]
    cases m.entries[i]? with
    | none => rfl
    | some e => by_cases hi : entry = i <;> simp [hi]
  exact congrArg (fun entries => MapPayload.mk m.layoutIndex m.keyIsRef m.valueIsRef entries []) hentries

/-- A map store of the heap is the map store of the store. -/
theorem Storage.setEntry (hst : h.Storage) (hkey : h.Valid key) (hvalue : h.Valid value)
    (hfind : h.store.findEntry (h.numberMap m) (h.numberValue key) = existing)
    (hok : m.store h₁ existing (if m.keyIsRef then key.mapObject h.canonical else key)
      (if m.valueIsRef then value.mapObject h.canonical else value) = .ok newMap) :
    h.store.setEntry (h.numberMap m) (h.numberValue key) (h.numberValue value) =
      h.numberMap newMap := by
  have hnumber : ∀ (isRef : Bool) (v : Value), h.Valid v →
      h.numberValue (if isRef then v.mapObject h.canonical else v) = h.numberValue v := by
    intro isRef v hv
    split
    · exact hst.numberValue_canonical hv
    · rfl
  unfold Store.setEntry
  rw [hfind]
  cases existing with
  | some entry =>
    cases hok
    rw [numberMap_overwrite, hnumber _ _ hvalue]
  | none =>
    have heq := insert_eq_ok hok
    rw [heq]
    show MapPayload.mk _ _ _ _ _ = MapPayload.mk _ _ _ _ _
    rw [List.map_append, List.map_singleton, hnumber _ _ hkey, hnumber _ _ hvalue]
    rfl

/-- The entry is stored, after a growth or without one. -/
theorem wp_publishMapEntry_takes (hbefore : h.store.Collects h₁.store) (hs : h.Stands)
    (hs₁ : h₁.Stands) (hends : ∀ h', h₁.Barriered h' → h.Ends h')
    (hr : h₁.resolve id₁ = .ok (slot, o)) (hp : o.payload = .map m) (hkey : h₁.Valid key₁)
    (hvalue : h₁.Valid value₁) (hid : h₁.numberId id₁ = h.numberId id)
    (hnames : [key₁, value₁].map h₁.numberValue = [key, value].map h.numberValue)
    (hstale : ¬h₁.RemembersStale id₁ value₁) (hfits : h₁.MapFits slot o m existing)
    (haccepts : h₁.store.accepts (h₁.numberMap m) (h₁.numberValue key₁) = true)
    (hfind : h₁.store.findEntry (h₁.numberMap m) (h₁.numberValue key₁) = existing) :
    wp (publishMapEntry id₁ existing key₁ value₁)
      (fun _ h' => h.Leaves h' (.mapSet id key value) none) (fun _ h' => h.Ends h') h₁ := by
  refine wp_publishMapEntry hs₁.toWf hr hp hkey hvalue hstale hfits
    (afterStore_takes hbefore hs hs₁ hends rfl hid fun slot' o' d hr' hrel hfields => ?_)
  rw [hr] at hr'
  cases hr'
  obtain ⟨m₀, newMap, h₂, hm₀, hnew, hok⟩ := hrel
  rw [hp] at hm₀
  cases hm₀
  have hold := hs₁.fields slot o (objectAt_of_resolve hr)
  have hshape := o.shape
  rw [hp] at hold hshape
  have hshape' := d.property
  rw [hnew] at hfields hshape'
  rw [hp, hnew, numberPayload_map hshape hold, numberPayload_map hshape' hfields]
  obtain ⟨hk, hv⟩ := operands_eq hnames
  have hset := hs₁.storage.setEntry hkey hvalue hfind hok
  have hk : h₁.numberValue key₁ = h.numberValue key := hk
  have hv : h₁.numberValue value₁ = h.numberValue value := hv
  rw [hk, hv] at hset
  rw [hk] at haccepts
  exact (if_pos haccepts).trans (congrArg (fun m => some (Payload.map m)) hset)

/-- What a valid value names is in the store. -/
theorem alive_of_numberValue (hn : h.Numbered) (hv : h.Valid value)
    (hid : h.numberValue value = .object id) : h.store.Alive id.slot := by
  cases value with
  | object id' =>
    obtain ⟨slot, o, hr⟩ := valid_object.mp hv
    rw [numberValue_object hr] at hid
    cases hid
    exact (store_alive hn).mpr ⟨slot, o, objectAt_of_resolve hr, rfl⟩
  | _ => exact nomatch hid

/-- The map that a movement has left is the map of the store. -/
theorem Evolves.numberMap_eq (he : h.Evolves h₁ [.object id] [.object id₁]) (hs : h.Stands)
    (hs₁ : h₁.Stands) (hr : h.resolve id = .ok (slot, o)) (hp : o.payload = .map m)
    (hr₁ : h₁.resolve id₁ = .ok (slot₁, o₁)) (hp₁ : o₁.payload = .map m₁) :
    h.store.objects o.serial = some (.map (h.numberMap m)) ∧
      h₁.store.objects o.serial = some (.map (h₁.numberMap m₁)) ∧ h₁.numberMap m₁ = h.numberMap m := by
  have hobject : ∀ {g : Heap} {slot : ℕ} {o : Object} {m : MapPayload}, g.Stands →
      g.objectAt slot = some o → o.payload = .map m →
        g.store.objects o.serial = some (.map (g.numberMap m)) := by
    intro g slot o m hg ho hp
    rw [store_objects_of_objectAt hg.numbered ho, hp,
      numberPayload_map (hp ▸ o.shape) (hp ▸ hg.fields slot o ho)]
  have hbefore := hobject hs (objectAt_of_resolve hr) hp
  have hafter := hobject hs₁ (objectAt_of_resolve hr₁) hp₁
  have hnames := he.map_numberValue
  rw [List.map_singleton, List.map_singleton, numberValue_object hr, numberValue_object hr₁] at hnames
  have hserial : o₁.serial = o.serial := numbered_inj.mp (Value.object.inj (List.cons.inj hnames).1)
  rw [hserial] at hafter
  have hcollects := he.collects hs.toWf hs₁.toWf hs.numbered
  obtain ⟨p, hstored, hforwards, heq⟩ := hcollects.kept _ _ hafter
  rw [hbefore] at hstored
  cases hstored
  rw [Store.forward_keep_strong rfl hforwards] at heq
  exact ⟨hbefore, hafter, Payload.map.inj heq⟩

theorem takes_storeMapEntry (hs : h.Stands)
    (hstale : ∀ entry, h.findMapEntry id key = .ok (some entry) → ¬h.RemembersStale id value) :
    wp (storeMapEntry id key value) (fun _ h' => h.Leaves h' (.mapSet id key value) none)
      (fun _ h' => h.Ends h') h := by
  have hw := hs.toWf
  have hnone : ∀ value ∈ ([] : List Value), h.Valid value := nofun
  refine wp_storeMapEntry_of (fun _ => ends_refl hw) ?_ ?_
  · intro entry slot o m hfound hr hp hkey hvalue hfits
    exact wp_publishMapEntry_takes hs.sound.collects hs hs
      (fun h' hb => (hb.evolves hs.toSound hnone).ends hb.wf) hr hp hkey hvalue rfl rfl
      (hstale entry hfound) hfits (hs.accepts_of_findMapEntry hr hp hkey hfound)
      (hs.findEntry hr hp hfound)
  · intro slot o m hfound hr hp hcells
    have hfinish := wp_mono (wp_finishActiveCompaction_evolves hw hcells)
      (fun _ _ hpost => hpost.2.2) fun _ _ he => he
    rw [wp_bind]
    refine wp_mono (wp_prepareMapInsertion hw hcells hfinish) (fun cells' h' hpost => ?_)
      fun _ h' he => ?_
    · obtain ⟨h₁, id₁, rest, slot₁, o₁, m₁, hbefore, hw₁, hc₁, hlength, hrest, hr₁, hp₁, hgrew⟩ :=
        hpost
      have hs₁ := hbefore.stands hs hw₁
      have he := hbefore.trans (hgrew.evolves hs₁.toSound hbefore.valid)
      rcases hgrew.roomy hw₁ hc₁ hr₁ hrest with hroomy | hoversized
      · obtain ⟨id', key', value', slot', o', m', rfl, hr', hp', hkey', hvalue', hfits⟩ :=
          hroomy.readyToInsert hlength hp₁
        have hs' := he.stands hs hroomy.wf
        have hcollects := he.collects hw hroomy.wf hs.numbered
        have hnames := he.map_numberValue
        have hnames' : h'.numberValue (.object id') = h.numberValue (.object id) ∧
            [key', value'].map h'.numberValue = [key, value].map h.numberValue :=
          List.cons.inj hnames
        have hkeyName : h'.numberValue key' = h.numberValue key := (List.cons.inj hnames'.2).1
        obtain ⟨-, hmap', hmap⟩ := he.head.numberMap_eq hs hs' hr hp hr' hp'
        -- the search for the key has not depended on where its string is
        have hfind : h'.store.accepts (h'.numberMap m') (h'.numberValue key') = true ∧
            h'.store.findEntry (h'.numberMap m') (h'.numberValue key') = none := by
          rw [hmap] at hmap' ⊢
          have hbytes : (h.numberMap m).keyIsRef = true → ∀ entry ∈ (h.numberMap m).entries,
              h'.store.bytes entry.key = h.store.bytes entry.key := fun href entry hentry =>
            hcollects.bytes fun id hid => hs'.sound.closed.alive_key hmap' hentry href hid
          have hkeyBytes := hcollects.bytes fun id hid =>
            alive_of_numberValue hs'.numbered hkey' (hkeyName.trans hid)
          rw [hkeyName, Store.findEntry_congr hbytes fun _ => hkeyBytes,
            Store.accepts_congr fun _ => hkeyBytes]
          have hkey := hcells key (by simp)
          exact ⟨hs.accepts_of_findMapEntry hr hp hkey hfound, hs.findEntry hr hp hfound⟩
        have hoperand : asObject ([.object id', key', value'].getD 0 .nil) = .ok id' := rfl
        refine wp_query_ok hoperand ?_
        exact wp_publishMapEntry_takes hcollects hs hs'
          (fun h'' hb => (he.alone.trans (hb.evolves hs'.toSound nofun)).ends hb.wf) hr' hp' hkey'
          hvalue' (Value.object.inj hnames'.1) hnames'.2 (not_remembersStale hfits.1) hfits
          hfind.1 hfind.2
      · have hpublish := publishInserted_preserves .oversized finishActiveCompaction_oversized cells'
        exact wp_mono (hpublish h' hoversized) (fun _ _ ho => .inr (.inr ho))
          fun _ _ ho => .inr (.inr ho)
    · obtain ⟨hw', cells₁, hfinished⟩ := he
      exact hfinished.ends hw'

end Maps

/-! ## The collector -/

section Collector

variable {h h' : Heap} {α : Type} {m : HeapM α} {op : Operation}

theorem allocates_mapIds {f : ObjectId → ObjectId} : (op.mapIds f).allocates = op.allocates := by
  cases op <;> rfl

theorem newHandles_mapIds {s : Store} {f : ObjectId → ObjectId} (hnone : s.newHandles op = none) :
    s.newHandles (op.mapIds f) = none := by
  cases op <;> first | rfl | cases hnone

/-- An operation without an effect on the store. -/
theorem Ends.leaves (hends : h.Ends h') (hs : h.Stands) (hallocates : op.allocates = false)
    (howner : op.owner = none) (hhandles : h.store.newHandles op = none) : h.Leaves h' op none := by
  rcases hends with ⟨hw', he⟩ | hspent
  · have howner' : (op.mapIds h.numberId).owner = none := by rw [owner_mapIds, howner, Option.map_none]
    exact .inl (takes_of_step hs hw' (he.numbered hs.numbered)
      (.rests (allocates_mapIds.trans hallocates) howner' (newHandles_mapIds hhandles)
        (he.collects hs.toWf hw' hs.numbered)))
  · exact .inr hspent

/-- Whether it returns or throws, `m` moves and reclaims objects at most. -/
def Rearranges (h : Heap) (m : HeapM α) : Prop := wp m (fun _ h' => h.Ends h') (fun _ h' => h.Ends h') h

theorem Rearranges.leaves (hm : h.Rearranges m) (hs : h.Stands) (hallocates : op.allocates = false)
    (howner : op.owner = none) (hhandles : h.store.newHandles op = none) :
    wp (do let _ ← m; return none) (fun id h' => h.Leaves h' op id) (fun _ h' => h.Ends h') h := by
  rw [wp_bind]
  exact wp_mono hm (fun _ h' hends => hends.leaves hs hallocates howner hhandles) fun _ _ hends => hends

/-- The serial numbers of `h` have all been given out. -/
def CountsOn (h : Heap) (m : HeapM α) : Prop :=
  wp m (fun _ h' => h.nextSerial ≤ h'.nextSerial) (fun _ h' => h.nextSerial ≤ h'.nextSerial) h

theorem CountsOn.of_return {β : Type} {b : β} (hnext : h.CountsOn (do let _ ← m; return b)) :
    h.CountsOn m := by
  unfold CountsOn at hnext
  rwa [wp_bind] at hnext

theorem rearranges_marks (hw : h.Wf) (hnext : h.CountsOn m)
    (hm : wp m (fun _ h' => h'.Wf ∧ h.SameButMarks h') (fun _ h' => h' = h) h) : h.Rearranges m := by
  have hnone : ∀ value ∈ ([] : List Value), h.Valid value := nofun
  refine wp_mono (wp_and hm hnext) (fun _ h' hpost => ?_) fun _ h' hpost => ?_
  · obtain ⟨⟨hw', hsame⟩, hle⟩ := hpost
    exact (hsame.evolves hle hw.toSound hnone).ends hw'
  · exact hpost.1.symm ▸ ends_refl hw

theorem rearranges_prepares {live : ℕ → Prop} (hw : h.Wf) (hnext : h.CountsOn m)
    (hm : wp m (fun _ h' => ∃ marked, h.Prepares h' marked ∧ marked.incrementalCompactionActive = false)
      (fun e h' => h' = h ∨ h.SameButMarks h' ∧ h'.phase = .idle ∧ e = generationExhausted ∧
        h.RunsOut live) h) : h.Rearranges m := by
  refine wp_mono (wp_and hm hnext) (fun _ h' hpost => ?_) fun e h' hpost => ?_
  · obtain ⟨⟨marked, hp, hc⟩, hle⟩ := hpost
    exact (hp.evolves hw.toSound hc hle).ends hp.wf
  · rcases hpost with ⟨rfl | ⟨hm, hidle, he, hruns⟩, hle⟩
    · exact ends_refl hw
    · exact .inr (.inl (hm.exhausted hruns))

theorem rearranges_collectImpl (hw : h.Wf) (kind : CollectionKind) : h.Rearranges (collectImpl kind []) := by
  have hnone : ∀ value ∈ ([] : List Value), h.Valid value := nofun
  exact wp_mono (wp_collectImpl_evolves hw hnone) (fun _ _ hpost => hpost.2.2.ends hpost.1)
    fun _ _ hends => hends

theorem rearranges_finishIncrementalMarking (hw : h.Wf)
    (hnext : h.CountsOn (finishIncrementalMarkingImpl [])) :
    h.Rearranges (finishIncrementalMarkingImpl []) := by
  have hnone : ∀ value ∈ ([] : List Value), h.Valid value := nofun
  cases hphase : h.phase with
  | marking worklist =>
    refine wp_mono (wp_and (wp_finishIncrementalMarkingImpl hw hphase hnone) hnext)
      (fun _ h' hpost => ?_) fun _ h' hpost => ?_
    · obtain ⟨⟨φ, hc, -⟩, hle⟩ := hpost
      have hkept : h.KeepsRoots φ (h.traceCollectionRoots []) := by
        rintro value hvalue id rfl
        obtain ⟨slot, o, hr⟩ := valid_object.mp (hw.traceCollectionRoots hnone _ hvalue)
        rw [forwardBy_of_resolve hr]
        exact (hc.survivors slot).mpr (.init (.inr ⟨id, o, hvalue, hr⟩))
      exact (hc.toRenames.evolves (fun slot o id' ho hid' => ⟨_, hc.moved slot o id' ho hid', rfl⟩)
        hle hw.toSound hkept hnone nofun).ends hc.wf
    · obtain ⟨⟨⟨hm, -, hw'⟩, -⟩, hle⟩ := hpost
      exact (hm.evolves hle hw.toSound hnone).ends hw'
  | _ =>
    unfold finishIncrementalMarkingImpl finishIncrementalMarkingLiveness Rearranges
    rw [wp_bind, wp_bind, wp_get]
    refine wp_ite (fun _ => ends_refl hw) fun hnot => ?_
    exact absurd (by rw [incrementalMarkingActive, hphase]; rfl) hnot

theorem rearranges_incrementalCompactStep (hw : h.Wf) (budget : ℕ)
    (hnext : h.CountsOn (incrementalCompactStepImpl budget [])) :
    h.Rearranges (incrementalCompactStepImpl budget []) := by
  have hnone : ∀ value ∈ ([] : List Value), h.Valid value := nofun
  cases hphase : h.phase with
  | compacting c =>
    refine wp_mono (wp_and (wp_incrementalCompactStepImpl hw hphase hnone) hnext)
      (fun _ h' hpost => ?_) fun _ _ he => he.1.elim
    obtain ⟨hsteps, hle⟩ := hpost
    obtain ⟨c', hs, -⟩ := hsteps.steps
    exact (hs.evolves hw hsteps.wf hphase hle).ends hsteps.wf
  | _ =>
    unfold incrementalCompactStepImpl Rearranges
    rw [wp_bind, wp_get]
    refine wp_ite (fun _ => ends_refl hw) fun hnot => ?_
    exact absurd (by rw [incrementalCompactionActive, hphase]; rfl) hnot

theorem rearranges_finishIncrementalCompaction (hw : h.Wf) :
    h.Rearranges (finishIncrementalCompactionImpl []) := by
  have hnone : ∀ value ∈ ([] : List Value), h.Valid value := nofun
  cases hphase : h.phase with
  | compacting c =>
    exact wp_mono (wp_finishIncrementalCompactionImpl_evolves hw hphase hnone)
      (fun _ _ hpost => hpost.2.2.ends hpost.1) fun _ _ he => he.elim
  | _ =>
    unfold finishIncrementalCompactionImpl Rearranges
    rw [wp_bind, wp_get, hphase]
    exact ends_refl hw

/-- Another configuration. -/
theorem evolves_stressConfig (hw : h.Wf) (config : StressConfig) :
    h.Evolves { h with stressConfig := config } [] [] := by
  have hnone : ∀ value ∈ ([] : List Value), h.Valid value := nofun
  have hu : Updates Eq h { h with stressConfig := config } := updates_of_objects rfl rfl rfl
  refine hu.evolves (fun _ _ _ _ heq => ?_) rfl (Nat.le_refl _) rfl rfl hw.toSound hnone
  exact heq ▸ ⟨rfl, rfl⟩

/-- Other handles are other handles of the store. -/
theorem leaves_handles {handles : List HandleRoot} (hs : h.Stands)
    (hw' : Wf { h with handleRoots := handles })
    (hhandles : h.store.newHandles (op.mapIds h.numberId) = some (handles.map h.numberRoot)) :
    h.Leaves { h with handleRoots := handles } op none := by
  have hn' : Numbered { h with handleRoots := handles } := ⟨hs.numbered.unique, hs.numbered.below⟩
  refine .inl (takes_of_step hs hw' hn' (.holds hhandles fun root hroot k hk => ?_))
  obtain ⟨root, hmem, rfl⟩ := List.mem_map.mp hroot
  exact alive_of_numberValue hs.numbered (hw'.handles root hmem) hk

end Collector

/-! ## The operations -/

section Operations

variable {h h' : Heap} {α : Type} {op : Operation} {m : HeapM α}

/-- An operation that returns has taken the step of the store, and one that throws has moved and
reclaimed objects at most, unless the heap is out of its limits. -/
theorem takes_run (hs : h.Stands) (hoperands : ∀ v ∈ op.arguments, h.Valid v)
    (hstale : ¬op.StoresStale h) :
    wp op.run (fun id h' => h.Leaves h' op id) (fun _ h' => h.Ends h') h := by
  have hw := hs.toWf
  have hnext : h.CountsOn op.run :=
    (GrowthInvariant.nextSerial h.nextSerial).run op h (Nat.le_refl _)
  have allocation {m : HeapM ObjectId}
      (hm : wp m (fun id h' => h.Leaves h' op (some id)) (fun _ h' => h.Ends h') h) :
      wp (some <$> m) (fun id h' => h.Leaves h' op id) (fun _ h' => h.Ends h') h := by
    rw [wp_map]
    exact hm
  have store {m : HeapM Unit}
      (hm : wp m (fun _ h' => h.Leaves h' op none) (fun _ h' => h.Ends h') h) :
      wp (do m; return none) (fun id h' => h.Leaves h' op id) (fun _ h' => h.Ends h') h := by
    rw [wp_bind]
    exact hm
  cases op with
  | allocatePair left right => exact allocation (takes_allocatePair hs hoperands)
  | allocateScalarArray length init => exact allocation (takes_allocateScalarArray hs init)
  | allocateRefArray length init => exact allocation (takes_allocateRefArray hs hoperands)
  | allocateString bytes => exact allocation (takes_allocateString hs bytes)
  | allocateStringConcat left right => exact allocation (takes_allocateStringConcat hs hoperands)
  | allocateStringSubstring source lo hi =>
    exact allocation (takes_allocateStringSubstring hs hoperands)
  | internString source => exact allocation (takes_internString hs hoperands)
  | allocateClosure l fn captures captureMap => exact allocation (takes_allocateClosure hs hoperands)
  | allocateMap l keyIsRef valueIsRef => exact allocation (takes_allocateMap hs keyIsRef valueIsRef)
  | allocateWeak target => exact allocation (takes_allocateWeak hs hoperands)
  | allocateEphemeron key value valueIsRef => exact allocation (takes_allocateEphemeron hs hoperands)
  | allocateBuilder => exact allocation (takes_allocateBuilder hs)
  | builderToString builder => exact allocation (takes_builderToString hs hoperands)
  | allocateRecord l fields refMap => exact allocation (takes_allocateRecord hs hoperands)
  | allocateVariant l c fields caseRefMaps => exact allocation (takes_allocateVariant hs hoperands)
  | setField id field value =>
    have hvalue := hoperands value (by simp [Operation.arguments])
    exact store (takes_storePairField hs field hvalue hstale)
  | arraySet id index value => exact store (takes_arraySet hs value)
  | refArraySet id index value =>
    have hvalue := hoperands value (by simp [Operation.arguments])
    exact store (takes_storeRefArrayElement hs hvalue hstale)
  | mapSet id key value =>
    exact store (takes_storeMapEntry hs fun entry hfound hremembers =>
      hstale ⟨⟨entry, hfound⟩, hremembers⟩)
  | recordSet id index value =>
    have hvalue := hoperands value (by simp [Operation.arguments])
    exact store (takes_storeRecordField hs hvalue hstale)
  | ephemeronSetValue id value =>
    have hvalue := hoperands value (by simp [Operation.arguments])
    exact store (takes_storeEphemeronValue hs hvalue hstale)
  | builderAppend id source =>
    have hbuilder := hoperands (.object id) (by simp [Operation.arguments])
    have hsource := hoperands source (by simp [Operation.arguments])
    exact store (takes_builderAppend hs hbuilder hsource)
  | builderClear id =>
    have hbuilder := hoperands (.object id) (by simp [Operation.arguments])
    exact store (takes_builderClear hs hbuilder)
  | makeHandle key value =>
    have hvalue := hoperands value (by simp [Operation.arguments])
    refine store ?_
    unfold Gc.makeHandle
    refine wp_query_ok (validateValue_eq_ok.mpr hvalue) ?_
    rw [wp_modify]
    refine leaves_handles hs (hw.setRoots hw.cells fun root hroot => ?_) ?_
    · rcases List.mem_append.mp hroot with hmem | hmem
      · exact hw.handles root hmem
      · rw [List.mem_singleton.mp hmem]
        exact hvalue
    · refine congrArg some ?_
      show h.handleRoots.map h.numberRoot ++ [h.numberRoot ⟨key, value⟩] = _
      rw [List.map_append, List.map_singleton]
  | releaseHandle key =>
    refine store (leaves_handles hs (hw.setRoots hw.cells fun root hroot => ?_) ?_)
    · exact hw.handles root (List.mem_of_mem_eraseP hroot)
    · exact congrArg some (List.eraseP_map ..)
  | moveHandle source destination =>
    refine store (leaves_handles hs (wp_moveHandle hw) ?_)
    refine congrArg some ?_
    show (h.handleRoots.map h.numberRoot).map _ = (h.handleRoots.map _).map h.numberRoot
    rw [List.map_map, List.map_map]
    refine List.map_congr_left fun root _ => ?_
    show (if root.key = source then _ else _) = h.numberRoot (if root.key = source then _ else _)
    split <;> rfl
  | setStressConfig config =>
    have hends : h.Ends { h with stressConfig := config } :=
      (evolves_stressConfig hw config).ends (hw.setStressConfig config)
    exact hends.leaves hs rfl rfl rfl
  | collect => exact (rearranges_collectImpl hw .major).leaves hs rfl rfl rfl
  | collectMinor => exact (rearranges_collectImpl hw .minor).leaves hs rfl rfl rfl
  | startIncrementalMarking =>
    exact (rearranges_marks hw hnext.of_return (wp_startIncrementalMarking hw)).leaves hs rfl rfl rfl
  | incrementalMarkStep budget =>
    exact (rearranges_marks hw hnext.of_return (wp_incrementalMarkStep budget hw)).leaves hs rfl rfl rfl
  | finishIncrementalMarking =>
    exact (rearranges_finishIncrementalMarking hw hnext.of_return).leaves hs rfl rfl rfl
  | finishIncrementalMarkingToIncrementalCompaction =>
    have hprepares := wp_finishIncrementalMarkingToIncrementalCompaction hw
    exact (rearranges_prepares hw hnext.of_return hprepares).leaves hs rfl rfl rfl
  | startIncrementalCompaction =>
    have hprepares := wp_startIncrementalCompaction hw
    exact (rearranges_prepares hw hnext.of_return hprepares).leaves hs rfl rfl rfl
  | incrementalCompactStep budget =>
    exact (rearranges_incrementalCompactStep hw budget hnext.of_return).leaves hs rfl rfl rfl
  | finishIncrementalCompaction =>
    exact (rearranges_finishIncrementalCompaction hw).leaves hs rfl rfl rfl

end Operations


end Heap

end LanguageRuntime.Gc
