import LanguageRuntime.Gc.HistoryTheorems
import LanguageRuntime.Gc.MutatorTheorems
import LanguageRuntime.Gc.Observation

/-!
# Loads as observations of the store

A load returns what the store has for the object it reads, under the names of the heap, and throws
where the store has nothing to return.
-/

namespace LanguageRuntime.Gc

open LanguageRuntime LanguageRuntime.Library

namespace Heap

section Reads

variable {h : Heap} {id : ObjectId} {slot index : ℕ} {o : Object} {value key : Value}
  {m : MapPayload} {l : Load}

/-- What a load has returned, under the names of the store. -/
def observed (h : Heap) (result : Except HeapError Loaded) : Option Loaded :=
  result.toOption.map (Loaded.mapIds h.numberId)

theorem observed_value (hw : h.Wf) (hv : h.Valid value) :
    h.observed (.value <$> h.canonicalizeIncrementalCompactionRead value) =
      some (.value (h.numberValue value)) := by
  rw [hw.canonicalize_eq_ok hv]
  exact congrArg (fun v => some (Loaded.value v)) (hw.storage.numberValue_canonical hv)

theorem observed_reference (hw : h.Wf) {isRef : Bool} (hv : isRef = true → h.Valid value) :
    h.observed (.value <$> h.canonicalizeReference isRef value) =
      some (.value (h.numberValue value)) := by
  cases isRef with
  | true => exact observed_value hw (hv rfl)
  | false => rfl

theorem observed_markedField (hw : h.Wf) {bitmap message : String} {scalar : Value → Bool}
    (hscalar : ∀ v, scalar v = true → v.isObject = false) {fields : List Value} {refMap : List Bool}
    (hlength : fields.length = refMap.length)
    (hshape : referenceMapError bitmap scalar fields refMap = none)
    (hvalid : ∀ v ∈ markedFields fields refMap, h.Valid v) :
    h.observed (.value <$> h.loadMarkedField fields refMap index message) =
      (fields.map h.numberValue)[index]?.map .value := by
  unfold loadMarkedField
  rw [List.getElem?_map]
  cases hfield : fields[index]? with
  | none => rfl
  | some v =>
    have hmarked := getElem_markedFields hscalar hlength hshape hfield
    dsimp only
    split at hmarked
    · next href =>
      rw [if_pos href]
      exact observed_value hw (hvalid v hmarked)
    · next href =>
      rw [if_neg href]
      rfl

/-! ### Lookups -/

/-- A lookup ends, and finds what the store finds. -/
theorem Stands.findMapEntry (hs : h.Stands) (hr : h.resolve id = .ok (slot, o))
    (hp : o.payload = .map m) (hkey : h.Valid key) :
    (h.findMapEntry id key).toOption =
      if h.store.accepts (h.numberMap m) (h.numberValue key) then
        some (h.store.findEntry (h.numberMap m) (h.numberValue key))
      else none := by
  have ho := objectAt_of_resolve hr
  have hw := hs.toWf
  rw [hs.accepts hkey]
  cases hvalidated : h.validateMapKey m key with
  | error e =>
    unfold Heap.findMapEntry
    rw [checkedMap_of_resolve hr hp, ok_bind]
    dsimp only
    rw [hvalidated]
    rfl
  | ok _ =>
    have hkeys := fun (e : MapEntry) (he : e ∈ m.entries) => hw.mapKeysEqual_isOk ho hp hvalidated he
    have hends : ∃ found, h.findMapEntry id key = .ok found := by
      unfold Heap.findMapEntry
      rw [checkedMap_of_resolve hr hp, ok_bind]
      dsimp only
      rw [hvalidated, ok_bind]
      split
      · exact ⟨none, rfl⟩
      · next hnonempty =>
        obtain ⟨hash, hhash⟩ := exists_mapKeyHash hvalidated
        rw [hhash, ok_bind]
        exact (hw.maps slot o m ho hp).exists_lookup hnonempty hkeys _
    obtain ⟨found, hfound⟩ := hends
    rw [hfound]
    exact congrArg some (hs.findEntry hr hp hfound).symm

/-! ### The loads -/

/-- The payload of an object under the names of the store. -/
def shown (h : Heap) (o : Object) : Payload := (o.payload.rename h.numberId).visible

theorem Stands.observed_left (hs : h.Stands) (hr : h.resolve id = .ok (slot, o)) :
    h.observed ((Load.left id).run h) = h.store.loadField (.left (h.numberId id)) (h.shown o) := by
  have hvalid := hs.fields slot o (objectAt_of_resolve hr)
  show h.observed (Loaded.value <$> h.left id) = _
  simp only [Heap.left, checkedPair, hr, ok_bind, shown]
  generalize o.payload = p at hvalid ⊢
  cases p with
  | pair left right => exact observed_value hs.toWf (hvalid left List.mem_cons_self)
  | _ => rfl

theorem Stands.observed_right (hs : h.Stands) (hr : h.resolve id = .ok (slot, o)) :
    h.observed ((Load.right id).run h) = h.store.loadField (.right (h.numberId id)) (h.shown o) := by
  have hvalid := hs.fields slot o (objectAt_of_resolve hr)
  show h.observed (Loaded.value <$> h.right id) = _
  simp only [Heap.right, checkedPair, hr, ok_bind, shown]
  generalize o.payload = p at hvalid ⊢
  cases p with
  | pair left right =>
    exact observed_value hs.toWf (hvalid right (List.mem_cons_of_mem _ List.mem_cons_self))
  | _ => rfl

theorem observed_arrayGet (hr : h.resolve id = .ok (slot, o)) :
    h.observed ((Load.arrayGet id index).run h) =
      h.store.loadField (.arrayGet (h.numberId id) index) (h.shown o) := by
  show h.observed (Loaded.scalar <$> h.arrayGet id index) = _
  simp only [Heap.arrayGet, checkedScalarArray, hr, ok_bind, shown]
  cases o.payload with
  | scalarArray elements =>
    simp only [pure_bind]
    show _ = elements[index]?.map Loaded.scalar
    cases elements[index]? <;> rfl
  | _ => rfl

theorem Stands.observed_refArrayGet (hs : h.Stands) (hr : h.resolve id = .ok (slot, o)) :
    h.observed ((Load.refArrayGet id index).run h) =
      h.store.loadField (.refArrayGet (h.numberId id) index) (h.shown o) := by
  have hvalid := hs.fields slot o (objectAt_of_resolve hr)
  show h.observed (Loaded.value <$> h.refArrayGet id index) = _
  simp only [Heap.refArrayGet, checkedRefArray, hr, ok_bind, shown]
  generalize o.payload = p at hvalid ⊢
  cases p with
  | refArray elements =>
    simp only [pure_bind]
    show _ = (elements.map h.numberValue)[index]?.map Loaded.value
    rw [List.getElem?_map]
    cases helement : elements[index]? with
    | none => rfl
    | some element =>
      have hmem := List.mem_of_getElem? helement
      exact observed_value hs.toWf (hvalid element (List.mem_append_left _ hmem))
  | _ => rfl

theorem observed_stringIndex (hr : h.resolve id = .ok (slot, o)) :
    h.observed ((Load.stringIndex id index).run h) =
      h.store.loadField (.stringIndex (h.numberId id) index) (h.shown o) := by
  show h.observed (Loaded.byte <$> h.stringIndex id index) = _
  simp only [Heap.stringIndex, checkedString, hr, ok_bind, shown]
  cases o.payload with
  | str bytes =>
    simp only [pure_bind]
    show _ = bytes[index]?.map Loaded.byte
    cases bytes[index]? <;> rfl
  | _ => rfl

theorem Stands.observed_stringEqual (hs : h.Stands) (hr : h.resolve id = .ok (slot, o))
    {other : ObjectId} (hother : h.Valid (.object other)) :
    h.observed ((Load.stringEqual id other).run h) =
      h.store.loadField (.stringEqual (h.numberId id) (h.numberId other)) (h.shown o) := by
  show h.observed (Loaded.flag <$> h.stringEqual id other) = _
  simp only [Heap.stringEqual, checkedString, hr, ok_bind, shown]
  cases o.payload with
  | str bytes =>
    show h.observed (Loaded.flag <$> (h.checkedString other >>= fun b => .ok (bytes == b))) =
      (h.store.bytes (.object (h.numberId other))).map fun b => .flag (bytes == b)
    rw [hs.bytes hother]
    cases h.checkedString other <;> rfl
  | _ => rfl

theorem Stands.observed_closureCapture (hs : h.Stands) (hr : h.resolve id = .ok (slot, o)) :
    h.observed ((Load.closureCapture id index).run h) =
      h.store.loadField (.closureCapture (h.numberId id) index) (h.shown o) := by
  have hshape := o.shape
  have hvalid := hs.fields slot o (objectAt_of_resolve hr)
  show h.observed (Loaded.value <$> h.closureCapture id index) = _
  simp only [Heap.closureCapture, checkedClosure, hr, ok_bind, shown]
  generalize o.payload = p at hshape hvalid ⊢
  cases p with
  | closure layoutIndex functionIndex captures captureMap =>
    obtain ⟨hlength, hmap⟩ := Payload.shape_closure hshape
    exact observed_markedField hs.toWf (fun v hv => by simpa using hv) hlength hmap fun v hv =>
      hvalid v (List.mem_append_left _ hv)
  | _ => rfl

theorem Stands.observed_recordGet (hs : h.Stands) (hr : h.resolve id = .ok (slot, o)) :
    h.observed ((Load.recordGet id index).run h) =
      h.store.loadField (.recordGet (h.numberId id) index) (h.shown o) := by
  have hshape := o.shape
  have hvalid := hs.fields slot o (objectAt_of_resolve hr)
  show h.observed (Loaded.value <$> h.recordGet id index) = _
  simp only [Heap.recordGet, checkedRecord, hr, ok_bind, shown]
  generalize o.payload = p at hshape hvalid ⊢
  cases p with
  | record layoutIndex fields refMap =>
    obtain ⟨hlength, hmap⟩ := Payload.shape_record hshape
    exact observed_markedField hs.toWf (fun _ => isObject_of_isScalar) hlength hmap fun v hv =>
      hvalid v (List.mem_append_left _ hv)
  | _ => rfl

theorem Stands.observed_variantGet (hs : h.Stands) (hr : h.resolve id = .ok (slot, o)) :
    h.observed ((Load.variantGet id index).run h) =
      h.store.loadField (.variantGet (h.numberId id) index) (h.shown o) := by
  have hshape := o.shape
  have hvalid := hs.fields slot o (objectAt_of_resolve hr)
  show h.observed (Loaded.value <$> h.variantGet id index) = _
  simp only [Heap.variantGet, checkedVariant, hr, ok_bind, shown]
  generalize o.payload = p at hshape hvalid ⊢
  cases p with
  | variant layoutIndex caseIndex fields caseRefMaps =>
    obtain ⟨hlength, hmap⟩ := Payload.shape_variant hshape
    exact observed_markedField hs.toWf (fun _ => isObject_of_isScalar) hlength hmap fun v hv =>
      hvalid v (List.mem_append_left _ hv)
  | _ => rfl

theorem Stands.observed_weakGet (hs : h.Stands) (hr : h.resolve id = .ok (slot, o)) :
    h.observed ((Load.weakGet id).run h) =
      h.store.loadField (.weakGet (h.numberId id)) (h.shown o) := by
  have hvalid := hs.fields slot o (objectAt_of_resolve hr)
  show h.observed (Loaded.value <$> h.weakGet id) = _
  simp only [Heap.weakGet, checkedWeakRef, hr, ok_bind, shown]
  generalize o.payload = p at hvalid ⊢
  cases p with
  | weakRef target => exact observed_value hs.toWf (hvalid target List.mem_cons_self)
  | _ => rfl

theorem Stands.observed_ephemeronKey (hs : h.Stands) (hr : h.resolve id = .ok (slot, o)) :
    h.observed ((Load.ephemeronKey id).run h) =
      h.store.loadField (.ephemeronKey (h.numberId id)) (h.shown o) := by
  have hvalid := hs.fields slot o (objectAt_of_resolve hr)
  show h.observed (Loaded.value <$> h.ephemeronKey id) = _
  simp only [Heap.ephemeronKey, checkedEphemeron, hr, ok_bind, shown]
  generalize o.payload = p at hvalid ⊢
  cases p with
  | ephemeron key value valueIsRef => exact observed_value hs.toWf (hvalid key List.mem_cons_self)
  | _ => rfl

theorem Stands.observed_ephemeronValue (hs : h.Stands) (hr : h.resolve id = .ok (slot, o)) :
    h.observed ((Load.ephemeronValue id).run h) =
      h.store.loadField (.ephemeronValue (h.numberId id)) (h.shown o) := by
  have hvalid := hs.fields slot o (objectAt_of_resolve hr)
  show h.observed (Loaded.value <$> h.ephemeronValue id) = _
  simp only [Heap.ephemeronValue, checkedEphemeron, hr, ok_bind, shown]
  generalize o.payload = p at hvalid ⊢
  cases p with
  | ephemeron key value valueIsRef =>
    refine observed_reference hs.toWf fun href => hvalid value ?_
    have href : valueIsRef = true := href
    simp [Payload.allFields, Payload.weakFields, href]
  | _ => rfl

/-! ### Maps -/

theorem mem_entryFields {e : MapEntry} (he : e ∈ m.entries)
    (hv : value ∈ e.referenceFields m.keyIsRef m.valueIsRef) : value ∈ (Payload.map m).allFields :=
  List.mem_append_left _ (List.mem_flatMap.mpr ⟨e, he, hv⟩)

theorem Stands.observed_mapKeyAt (hs : h.Stands) (hr : h.resolve id = .ok (slot, o)) :
    h.observed ((Load.mapKeyAt id index).run h) =
      h.store.loadField (.mapKeyAt (h.numberId id) index) (h.shown o) := by
  have hvalid := hs.fields slot o (objectAt_of_resolve hr)
  show h.observed (Loaded.value <$> h.mapKeyAt id index) = _
  simp only [Heap.mapKeyAt, checkedMap, hr, ok_bind, shown]
  generalize o.payload = p at hvalid ⊢
  cases p with
  | map m =>
    simp only [pure_bind]
    show _ = (h.numberMap m).entries[index]?.map fun e => Loaded.value e.key
    rw [numberMap, List.getElem?_map]
    cases hentry : m.entries[index]? with
    | none => rfl
    | some entry =>
      have hmem := List.mem_of_getElem? hentry
      refine observed_reference hs.toWf fun href => hvalid entry.key (mem_entryFields hmem ?_)
      simp [MapEntry.referenceFields, href]
  | _ => rfl

theorem Stands.observed_mapValueAt (hs : h.Stands) (hr : h.resolve id = .ok (slot, o)) :
    h.observed ((Load.mapValueAt id index).run h) =
      h.store.loadField (.mapValueAt (h.numberId id) index) (h.shown o) := by
  have hvalid := hs.fields slot o (objectAt_of_resolve hr)
  show h.observed (Loaded.value <$> h.mapValueAt id index) = _
  simp only [Heap.mapValueAt, checkedMap, hr, ok_bind, shown]
  generalize o.payload = p at hvalid ⊢
  cases p with
  | map m =>
    simp only [pure_bind]
    show _ = (h.numberMap m).entries[index]?.map fun e => Loaded.value e.value
    rw [numberMap, List.getElem?_map]
    cases hentry : m.entries[index]? with
    | none => rfl
    | some entry =>
      have hmem := List.mem_of_getElem? hentry
      refine observed_reference hs.toWf fun href => hvalid entry.value (mem_entryFields hmem ?_)
      simp [MapEntry.referenceFields, href]
  | _ => rfl

/-- Only maps are looked up in. -/
theorem findMapEntry_not_map (hr : h.resolve id = .ok (slot, o)) (hp : o.payload.kind ≠ .map) :
    (h.findMapEntry id key).toOption = none := by
  simp only [Heap.findMapEntry, checkedMap, hr, ok_bind]
  generalize o.payload = p at hp ⊢
  cases p with
  | map m => exact absurd rfl hp
  | _ => rfl

theorem Stands.observed_mapHas (hs : h.Stands) (hr : h.resolve id = .ok (slot, o))
    (hkey : h.Valid key) : h.observed ((Load.mapHas id key).run h) =
      h.store.loadField (.mapHas (h.numberId id) (h.numberValue key)) (h.shown o) := by
  have hrun : h.observed ((Load.mapHas id key).run h) =
      (h.findMapEntry id key).toOption.map fun found => Loaded.flag found.isSome := by
    show h.observed (Loaded.flag <$> h.mapHas id key) = _
    simp only [Heap.mapHas]
    cases h.findMapEntry id key <;> rfl
  rw [hrun]
  unfold shown
  cases hp : o.payload with
  | map m =>
    rw [hs.findMapEntry hr hp hkey]
    show _ = if h.store.accepts (h.numberMap m) (h.numberValue key) then _ else _
    split <;> rfl
  | _ =>
    rw [findMapEntry_not_map hr (by simp [hp, Payload.kind])]
    rfl

theorem Stands.observed_mapGet (hs : h.Stands) (hr : h.resolve id = .ok (slot, o))
    (hkey : h.Valid key) : h.observed ((Load.mapGet id key).run h) =
      h.store.loadField (.mapGet (h.numberId id) (h.numberValue key)) (h.shown o) := by
  unfold shown
  cases hp : o.payload with
  | map m =>
    have hvalid := hs.fields slot o (objectAt_of_resolve hr)
    have hfind := hs.findMapEntry hr hp hkey
    show _ = if h.store.accepts (h.numberMap m) (h.numberValue key) then
      (h.store.findEntry (h.numberMap m) (h.numberValue key)).bind fun entry =>
        (h.numberMap m).entries[entry]?.map fun e => Loaded.value e.value else none
    show h.observed (Loaded.value <$> h.mapGet id key) = _
    simp only [Heap.mapGet]
    cases hlookup : h.findMapEntry id key with
    | error e =>
      rw [hlookup] at hfind
      split at hfind
      · cases hfind
      · next haccepts =>
        rw [if_neg haccepts]
        rfl
    | ok found =>
      rw [hlookup] at hfind
      split at hfind
      · next haccepts =>
        have hfound : h.store.findEntry (h.numberMap m) (h.numberValue key) = found :=
          (Option.some.inj hfind).symm
        rw [if_pos haccepts, hfound, ok_bind]
        cases found with
        | none => rfl
        | some entry =>
          obtain ⟨hlt, -⟩ := List.findIdx?_eq_some_iff_getElem.mp hfound
          have hlt : entry < m.entries.length := by simpa [numberMap] using hlt
          dsimp only
          rw [checkedMap_of_resolve hr hp, ok_bind, Option.bind_some]
          simp only [numberMap, List.getElem?_map, List.getElem?_eq_getElem hlt, Option.map_some,
            Option.getD_some]
          rw [hp] at hvalid
          refine observed_reference hs.toWf fun href => hvalid _ (mem_entryFields
            (List.getElem_mem hlt) ?_)
          simp [MapEntry.referenceFields, href]
      · cases hfind
  | _ =>
    have hnone : (h.findMapEntry id key).toOption = none :=
      findMapEntry_not_map hr (by simp [hp, Payload.kind])
    show h.observed (Loaded.value <$> h.mapGet id key) = _
    simp only [Heap.mapGet]
    cases hlookup : h.findMapEntry id key with
    | error e => rfl
    | ok found =>
      rw [hlookup] at hnone
      cases hnone

/-! ### All of them -/

theorem owner_mapIds_load (f : ObjectId → ObjectId) : (l.mapIds f).owner = f l.owner := by
  cases l <;> rfl

/-- A load returns what the store has, and throws where the store has nothing to return. -/
theorem Stands.load (hs : h.Stands) (howner : h.Valid (.object l.owner))
    (hoperands : ∀ v ∈ l.operands, h.Valid v) :
    h.observed (l.run h) = h.store.load (l.mapIds h.numberId) := by
  obtain ⟨slot, o, hr⟩ := valid_object.mp howner
  rw [Store.load, owner_mapIds_load, hs.objects hr, Option.bind_some]
  cases l
  case left id => exact hs.observed_left hr
  case right id => exact hs.observed_right hr
  case arrayGet id index => exact observed_arrayGet hr
  case refArrayGet id index => exact hs.observed_refArrayGet hr
  case stringIndex id index => exact observed_stringIndex hr
  case stringEqual id other => exact hs.observed_stringEqual hr (hoperands _ List.mem_cons_self)
  case closureCapture id index => exact hs.observed_closureCapture hr
  case recordGet id index => exact hs.observed_recordGet hr
  case variantGet id index => exact hs.observed_variantGet hr
  case weakGet id => exact hs.observed_weakGet hr
  case ephemeronKey id => exact hs.observed_ephemeronKey hr
  case ephemeronValue id => exact hs.observed_ephemeronValue hr
  case mapKeyAt id index => exact hs.observed_mapKeyAt hr
  case mapValueAt id index => exact hs.observed_mapValueAt hr
  case mapHas id key => exact hs.observed_mapHas hr (hoperands key List.mem_cons_self)
  case mapGet id key => exact hs.observed_mapGet hr (hoperands key List.mem_cons_self)
  -- the others return a length, a tag or the index of a layout or function
  all_goals
    next id =>
    have hr : h.resolve id = .ok (slot, o) := hr
    simp only [Load.run, Heap.arrayLength, checkedScalarArray, Heap.refArrayLength, checkedRefArray,
      Heap.stringLength, checkedString, Heap.builderLength, checkedBuilder, Heap.closureLayoutIndex,
      Heap.closureFunctionIndex, Heap.closureCaptureCount, checkedClosure, Heap.mapLayoutIndex,
      Heap.mapLength, checkedMap, Heap.recordLayoutIndex, Heap.recordFieldCount, checkedRecord,
      Heap.variantLayoutIndex, Heap.variantTag, Heap.variantFieldCount, checkedVariant, hr, ok_bind]
    cases o.payload <;>
      first
      | rfl
      | exact congrArg (fun n => some (Loaded.count n)) (List.length_map _).symm

/-- An object with an identifier is in the store. -/
theorem Stands.exists_objects {k : ℕ} (hs : h.Stands) (hid : h.number id = some (Gc.numbered k)) :
    ∃ p, h.store.objects k = some p := by
  obtain ⟨slot, o, hr, heq⟩ := number_eq_some.mp hid
  have hobjects := hs.objects hr
  rw [numberId, hid, Option.getD_some, numbered_slot] at hobjects
  exact ⟨_, hobjects⟩

/-- A load from the object with the number `k`. -/
theorem Stands.load_of_number {k : ℕ} {p : Payload} (hs : h.Stands)
    (hid : h.number l.owner = some (Gc.numbered k)) (hp : h.store.objects k = some p)
    (hoperands : ∀ v ∈ l.operands, h.Valid v) :
    h.observed (l.run h) = h.store.loadField (l.mapIds h.numberId) p := by
  obtain ⟨slot, o, hr, -⟩ := number_eq_some.mp hid
  have howner : h.numberId l.owner = Gc.numbered k := by rw [numberId, hid, Option.getD_some]
  rw [hs.load (valid_object.mpr ⟨slot, o, hr⟩) hoperands, Store.load, owner_mapIds_load, howner,
    numbered_slot, hp, Option.bind_some]

end Reads

end Heap

end LanguageRuntime.Gc
