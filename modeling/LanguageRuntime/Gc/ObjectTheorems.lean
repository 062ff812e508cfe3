import LanguageRuntime.Gc.Object

/-!
# Rewriting the fields of an object

Rewriting identifiers keeps the kind, the width and the descriptor shape of a payload, and
acts on its reference fields pointwise.
-/

namespace LanguageRuntime.Gc

open LanguageRuntime

theorem isObject_of_isScalar {value : Value} (hv : value.isScalar = true) :
    value.isObject = false := by
  cases value with
  | object id => exact nomatch hv
  | _ => rfl

/-! ## Bitmaps -/

theorem mapMarkedFields_cons (f : ObjectId → ObjectId) (v : Value) (fields : List Value)
    (isRef : Bool) (refMap : List Bool) : mapMarkedFields f (v :: fields) (isRef :: refMap)
      = (if isRef then v.mapObject f else v) :: mapMarkedFields f fields refMap := rfl

@[simp] theorem length_mapMarkedFields (f : ObjectId → ObjectId) (fields : List Value)
    (refMap : List Bool) : (mapMarkedFields f fields refMap).length = fields.length := by
  induction fields, refMap using mapMarkedFields.induct <;> simp [mapMarkedFields, *]

@[simp] theorem markedFields_mapMarkedFields (f : ObjectId → ObjectId) (fields : List Value)
    (refMap : List Bool) :
    markedFields (mapMarkedFields f fields refMap) refMap
      = (markedFields fields refMap).map (Value.mapObject f) := by
  induction fields generalizing refMap with
  | nil => cases refMap <;> rfl
  | cons v fields ih =>
    cases refMap with
    | nil => rfl
    | cons isRef refMap => cases isRef <;> simp [mapMarkedFields_cons, markedFields, ih]

theorem referenceMapError_mapMarkedFields (f : ObjectId → ObjectId) (bitmap : String)
    (scalar : Value → Bool) (fields : List Value) (refMap : List Bool) :
    referenceMapError bitmap scalar (mapMarkedFields f fields refMap) refMap
      = referenceMapError bitmap scalar fields refMap := by
  induction fields generalizing refMap with
  | nil => cases refMap <;> rfl
  | cons v fields ih =>
    cases refMap with
    | nil => rfl
    | cons isRef refMap => cases isRef <;> simp [mapMarkedFields_cons, referenceMapError, ih]

theorem mapMarkedFields_id (fields : List Value) (refMap : List Bool) :
    mapMarkedFields (fun id => id) fields refMap = fields := by
  induction fields generalizing refMap with
  | nil => cases refMap <;> rfl
  | cons v fields ih =>
    cases refMap with
    | nil => rfl
    | cons isRef refMap => cases isRef <;> cases v <;> simp [mapMarkedFields_cons, ih]

theorem mapMarkedFields_congr {f g : ObjectId → ObjectId} {fields : List Value}
    {refMap : List Bool}
    (h : ∀ id, .object id ∈ markedFields fields refMap → f id = g id) :
    mapMarkedFields f fields refMap = mapMarkedFields g fields refMap := by
  induction fields generalizing refMap with
  | nil => cases refMap <;> rfl
  | cons v fields ih =>
    cases refMap with
    | nil => rfl
    | cons isRef refMap =>
      cases isRef with
      | false => simp_all [mapMarkedFields_cons, markedFields]
      | true =>
        simp only [markedFields, if_true, List.mem_cons] at h
        simp only [mapMarkedFields_cons, if_true]
        rw [ih fun id hid => h id (Or.inr hid)]
        cases v with
        | object id => rw [Value.mapObject_object, Value.mapObject_object, h id (Or.inl rfl)]
        | _ => rfl

theorem mapMarkedFields_comp (f g : ObjectId → ObjectId) (fields : List Value)
    (refMap : List Bool) :
    mapMarkedFields f (mapMarkedFields g fields refMap) refMap
      = mapMarkedFields (fun id => f (g id)) fields refMap := by
  induction fields generalizing refMap with
  | nil => cases refMap <;> rfl
  | cons v fields ih =>
    cases refMap with
    | nil => rfl
    | cons isRef refMap => cases isRef <;> cases v <;> simp [mapMarkedFields_cons, ih]

namespace MapEntry

@[simp] theorem referenceFields_mapReferenceFields (f : ObjectId → ObjectId)
    (keyIsRef valueIsRef : Bool) (entry : MapEntry) :
    (entry.mapReferenceFields f keyIsRef valueIsRef).referenceFields keyIsRef valueIsRef
      = (entry.referenceFields keyIsRef valueIsRef).map (Value.mapObject f) := by
  cases keyIsRef <;> cases valueIsRef <;> rfl

@[simp] theorem mapEntryError_mapReferenceFields (f : ObjectId → ObjectId)
    (keyIsRef valueIsRef : Bool) (entry : MapEntry) :
    mapEntryError keyIsRef valueIsRef (entry.mapReferenceFields f keyIsRef valueIsRef)
      = mapEntryError keyIsRef valueIsRef entry := by
  cases keyIsRef <;> cases valueIsRef <;> simp [mapEntryError, mapReferenceFields]

theorem mapReferenceFields_congr {f g : ObjectId → ObjectId} {keyIsRef valueIsRef : Bool}
    {entry : MapEntry}
    (h : ∀ id, .object id ∈ entry.referenceFields keyIsRef valueIsRef → f id = g id) :
    entry.mapReferenceFields f keyIsRef valueIsRef
      = entry.mapReferenceFields g keyIsRef valueIsRef := by
  obtain ⟨key, value⟩ := entry
  cases keyIsRef <;> cases valueIsRef <;> cases key <;> cases value <;>
    simp_all [mapReferenceFields, referenceFields]

end MapEntry

/-! ## Payloads -/

namespace Payload

@[simp] theorem kind_mapReferenceFields (f : ObjectId → ObjectId) (p : Payload) :
    (p.mapReferenceFields f).kind = p.kind := by cases p <;> rfl

@[simp] theorem kind_forwardWeakTarget (f : ObjectId → Option ObjectId) (p : Payload) :
    (p.forwardWeakTarget f).kind = p.kind := by
  cases p <;> try rfl
  next target => cases target <;> rfl

@[simp] theorem kind_forwardEphemeron (f : ObjectId → Option ObjectId) (p : Payload) :
    (p.forwardEphemeron f).kind = p.kind := by
  cases p <;> try rfl
  next key value valueIsRef =>
    cases key <;> try rfl
    next id => simp only [forwardEphemeron]; split <;> rfl

@[simp] theorem storageSlotCount_mapReferenceFields (f : ObjectId → ObjectId) (p : Payload) :
    (p.mapReferenceFields f).storageSlotCount = p.storageSlotCount := by
  cases p <;> simp [mapReferenceFields, storageSlotCount]

@[simp] theorem storageSlotCount_forwardWeakTarget (f : ObjectId → Option ObjectId)
    (p : Payload) : (p.forwardWeakTarget f).storageSlotCount = p.storageSlotCount := by
  cases p <;> try rfl
  next target => cases target <;> rfl

@[simp] theorem storageSlotCount_forwardEphemeron (f : ObjectId → Option ObjectId)
    (p : Payload) : (p.forwardEphemeron f).storageSlotCount = p.storageSlotCount := by
  cases p <;> try rfl
  next key value valueIsRef =>
    cases key <;> try rfl
    next id => simp only [forwardEphemeron]; split <;> rfl

@[simp] theorem referenceFields_mapReferenceFields (f : ObjectId → ObjectId) (p : Payload) :
    (p.mapReferenceFields f).referenceFields = p.referenceFields.map (Value.mapObject f) := by
  cases p <;> simp [mapReferenceFields, referenceFields, List.flatMap_map, List.map_flatMap]

@[simp] theorem referenceFields_forwardWeakTarget (f : ObjectId → Option ObjectId)
    (p : Payload) : (p.forwardWeakTarget f).referenceFields = p.referenceFields := by
  cases p <;> try rfl
  next target => cases target <;> rfl

@[simp] theorem referenceFields_forwardEphemeron (f : ObjectId → Option ObjectId)
    (p : Payload) : (p.forwardEphemeron f).referenceFields = p.referenceFields := by
  cases p <;> try rfl
  next key value valueIsRef =>
    cases key <;> try rfl
    next id => simp only [forwardEphemeron]; split <;> rfl

@[simp] theorem weakFields_mapReferenceFields (f : ObjectId → ObjectId) (p : Payload) :
    (p.mapReferenceFields f).weakFields = p.weakFields := by cases p <;> rfl

theorem mapReferenceFields_id (p : Payload) : p.mapReferenceFields (fun id => id) = p := by
  have hv : Value.mapObject (fun id => id) = id := by
    funext v; cases v <;> rfl
  have he : ∀ k v, MapEntry.mapReferenceFields (fun id => id) k v = id := by
    intro k v; funext e; cases k <;> cases v <;> simp [MapEntry.mapReferenceFields, hv]
  cases p <;> simp [mapReferenceFields, mapMarkedFields_id, hv, he]

theorem mapReferenceFields_congr {f g : ObjectId → ObjectId} {p : Payload}
    (h : ∀ id, .object id ∈ p.referenceFields → f id = g id) :
    p.mapReferenceFields f = p.mapReferenceFields g := by
  have hv : ∀ v : Value, (∀ id, v = .object id → f id = g id) → v.mapObject f = v.mapObject g := by
    intro v hv
    cases v with
    | object id => rw [Value.mapObject_object, Value.mapObject_object, hv id rfl]
    | _ => rfl
  cases p with
  | pair left right =>
    simp only [referenceFields, List.mem_cons, List.not_mem_nil, or_false] at h
    simp only [mapReferenceFields]
    rw [hv left fun id hid => h id (Or.inl hid.symm), hv right fun id hid => h id (Or.inr hid.symm)]
  | refArray elements =>
    simp only [mapReferenceFields]
    congr 1
    refine List.map_congr_left fun v hvm => hv v fun id hid => h id ?_
    simpa [referenceFields, ← hid] using hvm
  | closure l fn captures captureMap =>
    simp only [mapReferenceFields]
    rw [mapMarkedFields_congr h]
  | map m =>
    simp only [mapReferenceFields]
    congr 2
    refine List.map_congr_left fun e he => MapEntry.mapReferenceFields_congr fun id hid => h id ?_
    exact List.mem_flatMap.mpr ⟨e, he, hid⟩
  | record l fields refMap =>
    simp only [mapReferenceFields]
    rw [mapMarkedFields_congr h]
  | «variant» l c fields caseRefMaps =>
    simp only [mapReferenceFields]
    rw [mapMarkedFields_congr h]
  | _ => rfl

/-! ## The descriptor shape -/

theorem DescriptorShape.mapReferenceFields {p : Payload} (h : p.DescriptorShape)
    (f : ObjectId → ObjectId) : (p.mapReferenceFields f).DescriptorShape := by
  have hmap : ∀ k v (entries : List MapEntry),
      (entries.map (MapEntry.mapReferenceFields f k v)).findSome? (mapEntryError k v)
        = entries.findSome? (mapEntryError k v) := by
    intro k v entries
    rw [List.findSome?_map]
    congr 1
    funext e
    exact MapEntry.mapEntryError_mapReferenceFields f k v e
  cases p with
  | «variant» l c fields caseRefMaps =>
    simp only [DescriptorShape, descriptorError, Payload.mapReferenceFields,
      List.getD_eq_getElem?_getD] at h ⊢
    cases hc : caseRefMaps[c]? with
    | none => simp [hc] at h
    | some refMap =>
      simpa [hc, referenceMapError_mapMarkedFields] using h
  | _ =>
    simpa [DescriptorShape, descriptorError, Payload.mapReferenceFields,
      referenceMapError_mapMarkedFields, hmap] using h

theorem DescriptorShape.forwardWeakTarget {p : Payload} (h : p.DescriptorShape)
    (f : ObjectId → Option ObjectId) : (p.forwardWeakTarget f).DescriptorShape := by
  cases p with
  | weakRef target =>
    cases target with
    | object id =>
      cases hf : f id <;>
        simp [Payload.forwardWeakTarget, DescriptorShape, descriptorError, hf, Value.isReference]
    | _ => exact h
  | _ => exact h

theorem DescriptorShape.forwardEphemeron {p : Payload} (h : p.DescriptorShape)
    (f : ObjectId → Option ObjectId) : (p.forwardEphemeron f).DescriptorShape := by
  cases p with
  | ephemeron key value valueIsRef =>
    cases key with
    | object id =>
      cases hf : f id with
      | none =>
        cases valueIsRef <;>
          simp [Payload.forwardEphemeron, DescriptorShape, descriptorError, hf, Value.isReference]
      | some id' =>
        cases valueIsRef <;>
          simpa [Payload.forwardEphemeron, DescriptorShape, descriptorError, hf,
            Value.isReference] using h
    | _ => exact h
  | _ => exact h

end Payload

end LanguageRuntime.Gc
