import LanguageRuntime.Gc.Abstraction
import LanguageRuntime.Gc.ObjectStoreTheorems

/-!
# Payloads under other names

A payload that passes the descriptor check holds references in its reference fields only, so the
payload the store has is the payload of the heap with other names in all of its fields.
-/

namespace LanguageRuntime.Gc

open LanguageRuntime LanguageRuntime.Library

section Marked

variable {f g : ObjectId → ObjectId} {fields values : List Value} {refMap : List Bool}
  {bitmap : String} {scalar : Value → Bool} {value : Value}

theorem mapObject_of_not_isObject (hv : value.isObject = false) : value.mapObject f = value := by
  cases value with
  | object id => exact nomatch hv
  | _ => rfl

/-- The tag check of one field, and the rest of the fields. -/
theorem referenceMapError_cons {isRef : Bool}
    (hnone : referenceMapError bitmap scalar (value :: fields) (isRef :: refMap) = none) :
    (isRef = false → scalar value = true) ∧ referenceMapError bitmap scalar fields refMap = none := by
  rw [referenceMapError] at hnone
  split at hnone
  · next href =>
    split at hnone
    · exact ⟨fun hno => absurd href (by simp [hno]), hnone⟩
    · cases hnone
  · split at hnone
    · next hscalar => exact ⟨fun _ => hscalar, hnone⟩
    · cases hnone

/-- The fields that no bitmap marks are no references. -/
theorem mapMarkedFields_eq_map (hscalar : ∀ v, scalar v = true → v.isObject = false)
    (hlength : fields.length = refMap.length)
    (hnone : referenceMapError bitmap scalar fields refMap = none) :
    mapMarkedFields f fields refMap = fields.map (Value.mapObject f) := by
  induction fields generalizing refMap with
  | nil => cases refMap <;> rfl
  | cons field fields ih =>
    cases refMap with
    | nil => exact nomatch hlength
    | cons isRef refMap =>
      obtain ⟨hfield, hrest⟩ := referenceMapError_cons hnone
      rw [mapMarkedFields, List.map_cons, ih (Nat.succ.inj hlength) hrest]
      cases isRef with
      | true => rfl
      | false => rw [if_neg Bool.false_ne_true, mapObject_of_not_isObject (hscalar _ (hfield rfl))]

/-- Renaming what has been put into the marked fields. -/
theorem map_replaceMarkedFields (hscalar : ∀ v, scalar v = true → v.isObject = false)
    (hlength : fields.length = refMap.length)
    (hnone : referenceMapError bitmap scalar fields refMap = none)
    (hvalues : values.map (Value.mapObject f) =
      (markedFields fields refMap).map (Value.mapObject g)) :
    (replaceMarkedFields fields refMap values).map (Value.mapObject f) =
      fields.map (Value.mapObject g) := by
  induction fields generalizing refMap values with
  | nil => cases refMap <;> rfl
  | cons field fields ih =>
    cases refMap with
    | nil => exact nomatch hlength
    | cons isRef refMap =>
      obtain ⟨hfield, hrest⟩ := referenceMapError_cons hnone
      have htails : fields.length = refMap.length := Nat.succ.inj hlength
      cases isRef with
      | true =>
        cases values with
        | nil => exact nomatch hvalues
        | cons head values =>
          obtain ⟨hhead, htail⟩ := List.cons.inj hvalues
          show head.mapObject f :: _ = _
          rw [ih htails hrest htail, hhead, List.map_cons]
      | false =>
        have hobject := hscalar _ (hfield rfl)
        show field.mapObject f :: _ = _
        rw [ih htails hrest hvalues, mapObject_of_not_isObject hobject, List.map_cons,
          mapObject_of_not_isObject hobject]

/-- The keys and the values that the layout does not mark are no references. -/
theorem scalar_of_mapEntryError {keyIsRef valueIsRef : Bool} {entry : MapEntry}
    (hnone : mapEntryError keyIsRef valueIsRef entry = none) :
    (keyIsRef = false → entry.key.isObject = false) ∧
      (valueIsRef = false → entry.value.isObject = false) := by
  obtain ⟨key, value⟩ := entry
  constructor
  · rintro rfl
    cases key with
    | object id => exact nomatch hnone
    | _ => rfl
  · rintro rfl
    cases value with
    | object id =>
      unfold mapEntryError at hnone
      split at hnone
      · cases hnone
      · split at hnone <;> cases hnone
    | _ => rfl

end Marked

namespace Payload

/-- The payload with other names for the objects in its fields. -/
def rename (f : ObjectId → ObjectId) : Payload → Payload
  | pair left right => pair (left.mapObject f) (right.mapObject f)
  | refArray elements => refArray (elements.map (Value.mapObject f))
  | closure l fn captures captureMap => closure l fn (captures.map (Value.mapObject f)) captureMap
  | map m => map { m with
      entries := m.entries.map fun e => ⟨e.key.mapObject f, e.value.mapObject f⟩ }
  | weakRef target => weakRef (target.mapObject f)
  | record l fields refMap => record l (fields.map (Value.mapObject f)) refMap
  | variant l c fields caseRefMaps => variant l c (fields.map (Value.mapObject f)) caseRefMaps
  | ephemeron key value valueIsRef => ephemeron (key.mapObject f) (value.mapObject f) valueIsRef
  | p => p

variable {f g : ObjectId → ObjectId} {p : Payload} {l c fn : ℕ} {fields values : List Value}
  {refMap : List Bool} {caseRefMaps : List (List Bool)}

theorem shape_closure (hshape : (closure l fn fields refMap).DescriptorShape) :
    fields.length = refMap.length ∧
      referenceMapError "closure capture map" (!·.isObject) fields refMap = none := by
  have hshape : (if fields.length ≠ refMap.length then some _ else _) = none := hshape
  split at hshape
  · cases hshape
  · next hlength => exact ⟨not_not.mp hlength, hshape⟩

theorem shape_record (hshape : (record l fields refMap).DescriptorShape) :
    fields.length = refMap.length ∧
      referenceMapError "record reference bitmap" Value.isScalar fields refMap = none := by
  have hshape : (if fields.length ≠ refMap.length then some _ else _) = none := hshape
  split at hshape
  · cases hshape
  · next hlength => exact ⟨not_not.mp hlength, hshape⟩

theorem shape_variant (hshape : (variant l c fields caseRefMaps).DescriptorShape) :
    fields.length = (caseRefMaps.getD c []).length ∧
      referenceMapError "variant reference bitmap" Value.isScalar fields
        (caseRefMaps.getD c []) = none := by
  unfold DescriptorShape at hshape
  simp only [descriptorError] at hshape
  split at hshape
  · cases hshape
  · next refMap hcase =>
    rw [List.getD_eq_getElem?_getD, hcase, Option.getD_some]
    split at hshape
    · cases hshape
    · next hlength => exact ⟨(not_not.mp hlength).symm, hshape⟩

theorem shape_ephemeron {key value : Value} {valueIsRef : Bool}
    (hshape : (ephemeron key value valueIsRef).DescriptorShape) :
    key.isReference = true ∧ (key = .nil → value = .nil) ∧
      (valueIsRef = false → value.isObject = false) := by
  cases key with
  | object id =>
    refine ⟨rfl, nofun, ?_⟩
    rintro rfl
    cases value with
    | object id => exact nomatch hshape
    | _ => rfl
  | nil =>
    cases value with
    | nil => exact ⟨rfl, fun _ => rfl, fun _ => rfl⟩
    | _ => exact nomatch hshape
  | _ => exact nomatch hshape

/-- Forwarding every identifier is renaming. -/
theorem forward_eq_rename (hshape : p.DescriptorShape) :
    (p.forward fun id => some (f id)) = p.rename f := by
  cases p with
  | closure l fn captures captureMap =>
    obtain ⟨hlength, hnone⟩ := shape_closure hshape
    show closure l fn (mapMarkedFields f captures captureMap) captureMap = _
    rw [mapMarkedFields_eq_map (fun v hv => by simpa using hv) hlength hnone]
    rfl
  | map m =>
    have hentries : m.entries.map (MapEntry.mapReferenceFields f m.keyIsRef m.valueIsRef) =
        m.entries.map fun e => ⟨e.key.mapObject f, e.value.mapObject f⟩ := by
      refine List.map_congr_left fun entry hentry => ?_
      obtain ⟨hkey, hvalue⟩ := scalar_of_mapEntryError (List.findSome?_eq_none_iff.mp hshape entry hentry)
      unfold MapEntry.mapReferenceFields
      congr 1
      · split
        · rfl
        · next href => rw [mapObject_of_not_isObject (hkey (by simpa using href))]
      · split
        · rfl
        · next href => rw [mapObject_of_not_isObject (hvalue (by simpa using href))]
    show map { m with entries := m.entries.map (MapEntry.mapReferenceFields f _ _) } = _
    rw [hentries]
    rfl
  | weakRef target => cases target <;> rfl
  | record l fields refMap =>
    obtain ⟨hlength, hnone⟩ := shape_record hshape
    show record l (mapMarkedFields f fields refMap) refMap = _
    rw [mapMarkedFields_eq_map (fun _ => isObject_of_isScalar) hlength hnone]
    rfl
  | variant l c fields caseRefMaps =>
    obtain ⟨hlength, hnone⟩ := shape_variant hshape
    show variant l c (mapMarkedFields f fields (caseRefMaps.getD c [])) caseRefMaps = _
    rw [mapMarkedFields_eq_map (fun _ => isObject_of_isScalar) hlength hnone]
    rfl
  | ephemeron key value valueIsRef =>
    obtain ⟨hkey, hnil, hscalar⟩ := shape_ephemeron hshape
    cases key with
    | object id =>
      cases valueIsRef with
      | true => rfl
      | false =>
        show ephemeron _ value _ = ephemeron _ (value.mapObject f) _
        rw [mapObject_of_not_isObject (hscalar rfl)]
        rfl
    | nil =>
      rw [hnil rfl]
      rfl
    | _ => exact nomatch hkey
  | _ => rfl

/-- Replacing the fields by what a movement has made of them and renaming these. -/
theorem rename_replaceFields (hshape : p.DescriptorShape) (hempty : ∀ m, p = .map m → m.entries = [])
    (hvalues : values.map (Value.mapObject f) = p.allFields.map (Value.mapObject g)) :
    (p.replaceFields values).rename f = p.rename g := by
  cases p with
  | pair left right =>
    have hlength := congrArg List.length hvalues
    rw [List.length_map, List.length_map] at hlength
    obtain ⟨left', right', rfl⟩ := List.length_eq_two.mp hlength
    obtain ⟨hleft, hrest⟩ := List.cons.inj hvalues
    show pair (left'.mapObject f) (right'.mapObject f) = pair _ _
    rw [hleft, (List.cons.inj hrest).1]
  | refArray elements =>
    have hvalues : values.map (Value.mapObject f) = (elements ++ []).map (Value.mapObject g) := hvalues
    rw [List.append_nil] at hvalues
    exact congrArg refArray hvalues
  | closure l fn captures captureMap =>
    obtain ⟨hlength, hnone⟩ := shape_closure hshape
    have hvalues : _ = (markedFields captures captureMap ++ []).map (Value.mapObject g) := hvalues
    rw [List.append_nil] at hvalues
    show closure l fn (List.map _ _) captureMap = closure l fn _ captureMap
    rw [map_replaceMarkedFields (fun v hv => by simpa using hv) hlength hnone hvalues]
  | map m =>
    simp only [replaceFields, rename, hempty m rfl, replaceMapEntries, List.map_nil]
  | weakRef target =>
    have hlength := congrArg List.length hvalues
    rw [List.length_map, List.length_map] at hlength
    obtain ⟨target', rfl⟩ := List.length_eq_one_iff.mp hlength
    show weakRef (target'.mapObject f) = weakRef _
    rw [(List.cons.inj hvalues).1]
  | record l fields refMap =>
    obtain ⟨hlength, hnone⟩ := shape_record hshape
    have hvalues : _ = (markedFields fields refMap ++ []).map (Value.mapObject g) := hvalues
    rw [List.append_nil] at hvalues
    show record l (List.map _ _) refMap = record l _ refMap
    rw [map_replaceMarkedFields (fun _ => isObject_of_isScalar) hlength hnone hvalues]
  | variant l c fields caseRefMaps =>
    obtain ⟨hlength, hnone⟩ := shape_variant hshape
    have hvalues : _ = (markedFields fields (caseRefMaps.getD c []) ++ []).map (Value.mapObject g) :=
      hvalues
    rw [List.append_nil] at hvalues
    show variant l c (List.map _ _) caseRefMaps = variant l c _ caseRefMaps
    rw [map_replaceMarkedFields (fun _ => isObject_of_isScalar) hlength hnone hvalues]
  | ephemeron key value valueIsRef =>
    have hlength := congrArg List.length hvalues
    rw [List.length_map, List.length_map] at hlength
    cases valueIsRef with
    | true =>
      obtain ⟨key', value', rfl⟩ := List.length_eq_two.mp hlength
      obtain ⟨hkey, hrest⟩ := List.cons.inj hvalues
      show ephemeron (key'.mapObject f) (value'.mapObject f) true = ephemeron _ _ true
      rw [hkey, (List.cons.inj hrest).1]
    | false =>
      obtain ⟨key', rfl⟩ := List.length_eq_one_iff.mp hlength
      have hscalar := (shape_ephemeron hshape).2.2 rfl
      show ephemeron (key'.mapObject f) (value.mapObject f) false = ephemeron _ (value.mapObject g) false
      rw [(List.cons.inj hvalues).1, mapObject_of_not_isObject hscalar,
        mapObject_of_not_isObject hscalar]
  | _ => rfl

end Payload

end LanguageRuntime.Gc
