import LanguageRuntime.Gc.RenamingTheorems

/-!
# Allocations of the store

An allocator that returns has taken the step of the store: a collection, one new object with the
payload the operation asks for, and another collection.
-/

namespace LanguageRuntime.Gc

open LanguageRuntime LanguageRuntime.Library

namespace Heap

/-- The heap stands for a store. -/
structure Stands (h : Heap) : Prop extends Wf h where
  numbered : h.Numbered
  sound : h.store.Sound

/-- The store of the heap has taken the step of an operation that has returned `id`. -/
def Takes (h h' : Heap) (op : Operation) (id : Option ObjectId) : Prop :=
  h'.Stands ∧ h.store.Step ⟨.call (op.mapIds h.numberId), some (id.map h'.numberId)⟩ h'.store

/-- What an operation that returns leaves behind. -/
def Leaves (h h' : Heap) (op : Operation) (id : Option ObjectId) : Prop :=
  h.Takes h' op id ∨ h'.Exhausted ∨ h'.Oversized

section Names

variable {h h₁ h' : Heap} {cells cells₁ : List Value} {p p₁ : Payload} {value : Value}
  {id : ObjectId} {op : Operation}

theorem Evolves.stands (he : h.Evolves h₁ cells cells₁) (hs : h.Stands) (hw₁ : h₁.Wf) : h₁.Stands where
  toWf := hw₁
  numbered := he.numbered hs.numbered
  sound := (he.collects hs.toWf hw₁ hs.numbered).sound hs.sound

/-- The payload of the store is the payload of the heap with other names. -/
theorem numberPayload_eq_rename (hshape : p.DescriptorShape)
    (hvalid : ∀ value ∈ p.allFields, h.Valid value) :
    h.numberPayload p = (p.rename h.numberId).visible := by
  rw [numberPayload_eq hvalid, Payload.forward_eq_rename hshape]

theorem numberId_of_resolve {slot : ℕ} {o : Object} (hr : h.resolve id = .ok (slot, o)) :
    h.numberId id = numbered o.serial := by
  rw [numberId, number_of_resolve hr, Option.getD_some]

/-- What a movement has made of a payload is the same payload of the store. -/
theorem Evolves.numberPayload_carried (he : h.Evolves h₁ p.allFields cells₁)
    (hc : Carried p cells₁ p₁) (hshape : p.DescriptorShape) (hshape₁ : p₁.DescriptorShape)
    (hf : h.Fresh p) : h₁.numberPayload p₁ = h.numberPayload p := by
  have hvalues := he.map_numberValue
  rcases hc with ⟨rfl, rfl⟩ | rfl
  · refine congrArg _ (Payload.forward_congr fun id hid => ?_)
    obtain ⟨slot, o, hr⟩ := valid_object.mp (hf.fields _ hid)
    obtain ⟨slot₁, o₁, hr₁⟩ := valid_object.mp (he.valid _ hid)
    have hsame : h₁.numberValue (.object id) = h.numberValue (.object id) :=
      List.map_inj_left.mp hvalues _ hid
    rw [numberValue_object hr, numberValue_object hr₁] at hsame
    rw [number_of_resolve hr, number_of_resolve hr₁, Value.object.inj hsame]
  · have hempty : ∀ m, p = .map m → m.entries = [] := fun m hm => (hf.empty m hm).1
    have hvalid₁ : ∀ value ∈ (p.replaceFields cells₁).allFields, h₁.Valid value := fun value hvalue =>
      he.valid value (mem_allFields_replaceFields hempty he.length_eq hvalue)
    rw [numberPayload_eq_rename hshape₁ hvalid₁, numberPayload_eq_rename hshape hf.fields,
      Payload.rename_replaceFields hshape hempty hvalues]

theorem takes_of_step {result : Option ObjectId} (hs : h.Stands) (hw' : h'.Wf) (hn' : h'.Numbered)
    (hstep : h.store.Step ⟨.call (op.mapIds h.numberId), some (result.map h'.numberId)⟩ h'.store) :
    h.Takes h' op result :=
  ⟨⟨hw', hn', hstep.sound hs.sound⟩, hstep⟩

/-- A birth is a birth in the store, and a collection after it. -/
structure Hatched (h h' : Heap) (id : ObjectId) (p : Payload) (k : ℕ) : Prop where
  number : h'.numberId id = numbered k
  numbered : h'.Numbered
  fresh : h.store.next ≤ k
  fields : ∀ id, .object id ∈ (h.numberPayload p).allFields → h.store.Alive id.slot
  collects : (h.store.allocated k (h.numberPayload p)).Collects h'.store
  alive : h'.store.Alive k

theorem Born.hatched (hb : h₁.Born h' id p) (hs₁ : h₁.Stands) (hshape : p.DescriptorShape)
    (hf : h₁.Fresh p) : ∃ k, h₁.Hatched h' id p k := by
  obtain ⟨h₂, h₃, id₃, values, p₂, hw₂, hmoved, hcarried, hbears, hafter, hw'⟩ := hb
  have hs₂ := hmoved.stands hs₁ hw₂
  have hn₃ := hbears.numbered hs₂.numbered
  have hn' := hafter.numbered hn₃
  obtain ⟨base, new, hr₃, hserial, hpayload⟩ := hbears.object
  -- the payload that has been carried along
  have hshape₂ : p₂.DescriptorShape := hpayload ▸ new.shape
  have hsame := hmoved.numberPayload_carried hcarried hshape hshape₂ hf
  have hvalid₂ : ∀ value ∈ p₂.allFields, h₂.Valid value := by
    intro value hvalue
    rcases hcarried with ⟨rfl, rfl⟩ | rfl
    · exact hmoved.valid value hvalue
    · exact hmoved.valid value
        (mem_allFields_replaceFields (fun m hm => (hf.empty m hm).1) hmoved.length_eq hvalue)
  have hborn := hbears.store_eq hw₂ hs₂.numbered hvalid₂
  rw [hsame] at hborn
  have hcollects := hmoved.collects hs₁.toWf hw₂ hs₁.numbered
  have hlast := hafter.collects hbears.wf hw' hn₃
  rw [hborn] at hlast
  have hfields : ∀ id, .object id ∈ (h₁.numberPayload p).allFields → h₂.store.Alive id.slot :=
    fun id hid => alive_of_mem_numberPayload hs₂.numbered hshape₂ hvalid₂ (hsame.symm ▸ hid)
  -- the number of the new object
  obtain ⟨slot', o', hr'⟩ := valid_object.mp (hafter.valid _ (List.mem_singleton_self _))
  have hnumber : h'.numberId id = Gc.numbered h₂.nextSerial := by
    have hcells := hafter.map_numberValue
    rw [List.map_singleton, List.map_singleton, numberValue_object hr₃, numberValue_object hr',
      hserial] at hcells
    rw [numberId_of_resolve hr', Value.object.inj (List.cons.inj hcells).1]
  have hserial' := hnumber
  rw [numberId_of_resolve hr', numbered_inj] at hserial'
  refine ⟨h₂.nextSerial, hnumber, hn', hcollects.next, fun id hid => hcollects.alive (hfields id hid),
    (hcollects.allocated hs₁.sound (Nat.le_refl _) hfields).trans hlast, ?_⟩
  exact (store_alive hn').mpr ⟨slot', o', objectAt_of_resolve hr', hserial'⟩

/-- An object born after a movement is born in the store before the collection the movement is. -/
theorem Born.takes (hb : h₁.Born h' id p) (he : h.Evolves h₁ cells cells₁) (hs : h.Stands)
    (hw₁ : h₁.Wf) (hshape : p.DescriptorShape) (hf : h₁.Fresh p)
    (hp : h₁.store.newPayload (op.mapIds h.numberId) = some (h₁.numberPayload p)) :
    h.Takes h' op (some id) := by
  obtain ⟨k, hk⟩ := hb.hatched (he.stands hs hw₁) hshape hf
  refine takes_of_step hs hb.wf hk.numbered ?_
  rw [Option.map_some, hk.number]
  exact .allocates (he.collects hs.toWf hw₁ hs.numbered) hp hk.fresh hk.fields hk.collects hk.alive

end Names

/-! ## The allocators -/

section Allocators

variable {h h₁ h' : Heap} {left right value key source builder target : Value}
  {length l c fn lo hi : ℕ} {fields captures operands operands₁ cells cells₁ : List Value}
  {refMap : List Bool} {caseRefMaps : List (List Bool)} {bytes : List UInt8} {op : Operation}
  {id : ObjectId}

/-- The construction, after what a movement has left of the operands. -/
theorem Evolves.wp_allocateDescriptor {descriptor : Except HeapError Descriptor}
    (he : h.Evolves h₁ cells cells₁) (hs : h.Stands) (hw₁ : h₁.Wf)
    (hf : ∀ d, descriptor = .ok d → h₁.Fresh d.val)
    (hp : ∀ d, descriptor = .ok d → h₁.store.newPayload (op.mapIds h.numberId) =
      some (d.val.rename h₁.numberId).visible) :
    wp (allocateDescriptor descriptor) (fun id h' => h.Leaves h' op (some id))
      (fun _ h' => h.Ends h') h₁ := by
  refine wp_mono (wp_allocateDescriptor_born hw₁ hf) (fun id h' hpost => ?_)
    fun _ _ hends => hends.after he
  obtain ⟨d, hd, hborn⟩ := hpost
  have hfresh := hf d hd
  refine .inl (hborn.takes he hs hw₁ d.property hfresh ?_)
  rw [hp d hd, numberPayload_eq_rename d.property hfresh.fields]

/-- A collection before, the construction, a collection after. -/
theorem wp_allocate_takes {descriptor : List Value → Except HeapError Descriptor} (hs : h.Stands)
    (hoperands : ∀ v ∈ operands, h.Valid v)
    (hd : ∀ operands', operands'.length = operands.length → ∀ d, descriptor operands' = .ok d →
      BuiltFrom operands' d.val)
    (hp : ∀ (h₁ : Heap) operands', operands'.map h₁.numberValue = operands.map h.numberValue →
      ∀ d, descriptor operands' = .ok d → h₁.store.newPayload (op.mapIds h.numberId) =
        some (d.val.rename h₁.numberId).visible) :
    wp (do
      let operands ← collectBeforeAllocation operands
      allocateDescriptor (descriptor operands))
      (fun id h' => h.Leaves h' op (some id)) (fun _ h' => h.Ends h') h := by
  rw [wp_bind]
  refine wp_mono (wp_collectBeforeAllocation_evolves hs.toWf hoperands)
    (fun operands₁ h₁ hpost => ?_) fun _ _ hends => hends
  obtain ⟨hw₁, hbefore⟩ := hpost
  exact hbefore.wp_allocateDescriptor hs hw₁
    (fun d hok => (hd operands₁ hbefore.length_eq d hok).fresh hbefore.valid)
    (hp h₁ operands₁ hbefore.map_numberValue)

/-- The operand of an allocation with one operand. -/
theorem operand_eq (hmap : operands.map h₁.numberValue = [value].map h.numberValue) :
    h₁.numberValue (operands.getD 0 .nil) = h.numberValue value := by
  have hlength := congrArg List.length hmap
  rw [List.length_map, List.length_map] at hlength
  obtain ⟨value', rfl⟩ := List.length_eq_one_iff.mp hlength
  exact (List.cons.inj hmap).1

/-- The operands of an allocation with two operands. -/
theorem operands_eq (hmap : operands.map h₁.numberValue = [left, right].map h.numberValue) :
    h₁.numberValue (operands.getD 0 .nil) = h.numberValue left ∧
      h₁.numberValue (operands.getD 1 .nil) = h.numberValue right := by
  have hlength := congrArg List.length hmap
  rw [List.length_map, List.length_map] at hlength
  obtain ⟨left', right', rfl⟩ := List.length_eq_two.mp hlength
  obtain ⟨hleft, hrest⟩ := List.cons.inj hmap
  exact ⟨hleft, (List.cons.inj hrest).1⟩

theorem takes_allocatePair (hs : h.Stands) (hoperands : ∀ v ∈ [left, right], h.Valid v) :
    wp (allocatePair left right) (fun id h' => h.Leaves h' (.allocatePair left right) (some id))
      (fun _ h' => h.Ends h') h := by
  refine wp_allocate_takes hs hoperands (fun operands _ d hd => ?_) fun h₁ operands₁ hmap d hd => ?_
  · cases hd
    exact builtFrom_pair operands
  · cases hd
    obtain ⟨hleft, hright⟩ := operands_eq hmap
    show some (Payload.pair (h.numberValue left) (h.numberValue right)) =
      some (Payload.pair (h₁.numberValue _) (h₁.numberValue _))
    rw [hleft, hright]

theorem takes_allocateScalarArray (hs : h.Stands) (init : Int64) :
    wp (allocateScalarArray length init)
      (fun id h' => h.Leaves h' (.allocateScalarArray length init) (some id))
      (fun _ h' => h.Ends h') h := by
  refine wp_allocate_takes hs nofun (fun _ _ _ hd => builtFrom_scalarArray hd) fun _ _ _ d hd => ?_
  rw [scalarArray_eq_ok hd]
  rfl

theorem takes_allocateRefArray (hs : h.Stands) (hvalue : ∀ v ∈ [value], h.Valid v) :
    wp (allocateRefArray length value)
      (fun id h' => h.Leaves h' (.allocateRefArray length value) (some id))
      (fun _ h' => h.Ends h') h := by
  unfold allocateRefArray
  refine wp_query_bind (fun _ _ => ?_) fun _ _ => ends_refl hs.toWf
  refine wp_allocate_takes hs hvalue (fun _ _ _ hd => builtFrom_refArray hd)
    fun h₁ operands₁ hmap d hd => ?_
  rw [refArray_eq_ok hd]
  show some (Payload.refArray (List.replicate length (h.numberValue value))) =
    some (Payload.refArray ((List.replicate length _).map h₁.numberValue))
  rw [List.map_replicate, operand_eq hmap]

theorem takes_allocateString (hs : h.Stands) (bytes : List UInt8) :
    wp (allocateString bytes) (fun id h' => h.Leaves h' (.allocateString bytes) (some id))
      (fun _ h' => h.Ends h') h := by
  refine wp_allocate_takes hs nofun (fun _ _ _ hd => builtFrom_string hd) fun _ _ _ d hd => ?_
  rw [string_eq_ok hd]
  rfl

theorem takes_allocateBuilder (hs : h.Stands) :
    wp allocateBuilder (fun id h' => h.Leaves h' .allocateBuilder (some id))
      (fun _ h' => h.Ends h') h := by
  refine wp_allocate_takes hs nofun (fun operands _ d hd => ?_) fun _ _ _ d hd => ?_
  · cases hd
    exact builtFrom_builder operands
  · cases hd
    rfl

theorem takes_allocateMap (hs : h.Stands) (keyIsRef valueIsRef : Bool) :
    wp (allocateMap l keyIsRef valueIsRef)
      (fun id h' => h.Leaves h' (.allocateMap l keyIsRef valueIsRef) (some id))
      (fun _ h' => h.Ends h') h := by
  refine wp_allocate_takes hs nofun (fun _ _ _ hd => builtFrom_map hd) fun _ _ _ d hd => ?_
  rw [map_eq_ok_empty hd]
  rfl

theorem takes_allocateClosure (hs : h.Stands) (hcaptures : ∀ v ∈ captures, h.Valid v) :
    wp (allocateClosure l fn captures refMap)
      (fun id h' => h.Leaves h' (.allocateClosure l fn captures refMap) (some id))
      (fun _ h' => h.Ends h') h := by
  unfold allocateClosure
  refine wp_ite (fun _ => ends_refl hs.toWf) fun _ => ?_
  refine wp_query_bind (fun _ _ => ?_) fun _ _ => ends_refl hs.toWf
  refine wp_allocate_takes hs hcaptures (fun _ _ _ hd => builtFrom_closure hd)
    fun h₁ operands₁ hmap d hd => ?_
  rw [closure_eq_ok hd]
  show some (Payload.closure l fn (captures.map h.numberValue) refMap) =
    some (Payload.closure l fn (operands₁.map h₁.numberValue) refMap)
  rw [hmap]

theorem takes_allocateWeak (hs : h.Stands) (htarget : ∀ v ∈ [target], h.Valid v) :
    wp (allocateWeak target) (fun id h' => h.Leaves h' (.allocateWeak target) (some id))
      (fun _ h' => h.Ends h') h := by
  unfold allocateWeak
  refine wp_query_bind (fun _ _ => ?_) fun _ _ => ends_refl hs.toWf
  refine wp_query_bind (fun _ _ => ?_) fun _ _ => ends_refl hs.toWf
  refine wp_allocate_takes hs htarget (fun _ _ _ hd => builtFrom_weakRef hd)
    fun h₁ operands₁ hmap d hd => ?_
  rw [weakRef_eq_ok hd]
  show some (Payload.weakRef (h.numberValue target)) = some (Payload.weakRef (h₁.numberValue _))
  rw [operand_eq hmap]

theorem takes_allocateEphemeron (hs : h.Stands) {valueIsRef : Bool}
    (hoperands : ∀ v ∈ [key, value], h.Valid v) :
    wp (allocateEphemeron key value valueIsRef)
      (fun id h' => h.Leaves h' (.allocateEphemeron key value valueIsRef) (some id))
      (fun _ h' => h.Ends h') h := by
  unfold allocateEphemeron
  refine wp_query_bind (fun _ _ => ?_) fun _ _ => ends_refl hs.toWf
  refine wp_allocate_takes hs hoperands (fun _ _ _ hd => builtFrom_ephemeron hd)
    fun h₁ operands₁ hmap d hd => ?_
  rw [ephemeron_eq_ok hd]
  obtain ⟨hkey, hvalue⟩ := operands_eq hmap
  show some (Payload.ephemeron (h.numberValue key) (h.numberValue value) valueIsRef) =
    some (Payload.ephemeron (h₁.numberValue _) (h₁.numberValue _) valueIsRef)
  rw [hkey, hvalue]

theorem takes_allocateRecord (hs : h.Stands) (hfields : ∀ v ∈ fields, h.Valid v) :
    wp (allocateRecord l fields refMap)
      (fun id h' => h.Leaves h' (.allocateRecord l fields refMap) (some id))
      (fun _ h' => h.Ends h') h := by
  unfold allocateRecord
  refine wp_ite (fun _ => ends_refl hs.toWf) fun _ => ?_
  refine wp_query_bind (fun checked hchecked => ?_) fun _ _ => ends_refl hs.toWf
  have hshape := checked.property
  rw [record_eq_ok hchecked] at hshape
  obtain ⟨hlength, hnone⟩ := Payload.shape_record hshape
  refine wp_allocate_takes hs (fun v hv => hfields v (mem_markedFields hv))
    (fun _ hlength _ hd => builtFrom_record hlength hd) fun h₁ operands₁ hmap d hd => ?_
  rw [record_eq_ok hd]
  show some (Payload.record l (fields.map h.numberValue) refMap) =
    some (Payload.record l ((replaceMarkedFields fields refMap operands₁).map h₁.numberValue) refMap)
  rw [show (replaceMarkedFields fields refMap operands₁).map h₁.numberValue =
    fields.map h.numberValue from
      map_replaceMarkedFields (fun _ => isObject_of_isScalar) hlength hnone hmap]

theorem takes_allocateVariant (hs : h.Stands) (hfields : ∀ v ∈ fields, h.Valid v) :
    wp (allocateVariant l c fields caseRefMaps)
      (fun id h' => h.Leaves h' (.allocateVariant l c fields caseRefMaps) (some id))
      (fun _ h' => h.Ends h') h := by
  unfold allocateVariant
  refine wp_query_bind (fun _ _ => ?_) fun _ _ => ends_refl hs.toWf
  refine wp_allocate_takes hs hfields (fun _ _ _ hd => builtFrom_variant hd)
    fun h₁ operands₁ hmap d hd => ?_
  rw [variant_eq_ok hd]
  show some (Payload.variant l c (fields.map h.numberValue) caseRefMaps) =
    some (Payload.variant l c (operands₁.map h₁.numberValue) caseRefMaps)
  rw [hmap]

end Allocators

/-! ### Strings -/

section Strings

variable {h h₁ h' : Heap} {left right source builder value : Value} {lo hi : ℕ}
  {operands cells cells₁ : List Value} {bytes : List UInt8} {context : String} {op : Operation}
  {id : ObjectId}

theorem stringBytesOf_eq_ok (hok : h.stringBytesOf value context = .ok bytes) :
    ∃ id, value = .object id ∧ h.checkedString id = .ok bytes := by
  obtain ⟨id, hid, hstring⟩ := bind_eq_ok.mp hok
  exact ⟨id, requireObjectReferenceValue_eq_ok hid, hstring⟩

/-- The bytes of a string of the heap are its bytes in the store. -/
theorem bytes_of_checkedString (hn : h.Numbered) (hstring : h.checkedString id = .ok bytes) :
    h.store.bytes (h.numberValue (.object id)) = some bytes := by
  obtain ⟨slot, o, hr, hp⟩ := checkedString_eq_ok.mp hstring
  rw [numberValue_object hr, Store.bytes_eq_some]
  refine ⟨_, rfl, ?_⟩
  rw [numbered_slot, store_objects_of_objectAt hn (objectAt_of_resolve hr), hp]
  rfl

theorem bytes_of_stringBytesOf (hn : h.Numbered)
    (hok : h.stringBytesOf value context = .ok bytes) :
    h.store.bytes (h.numberValue value) = some bytes := by
  obtain ⟨id, rfl, hstring⟩ := stringBytesOf_eq_ok hok
  exact bytes_of_checkedString hn hstring

theorem wp_collectBeforeAllocation_takes {m : List Value → HeapM ObjectId} (hs : h.Stands)
    (hoperands : ∀ v ∈ operands, h.Valid v)
    (hm : ∀ operands₁ h₁, h₁.Wf → h.Evolves h₁ operands operands₁ →
      wp (m operands₁) (fun id h' => h.Leaves h' op (some id)) (fun _ h' => h.Ends h') h₁) :
    wp (collectBeforeAllocation operands >>= m) (fun id h' => h.Leaves h' op (some id))
      (fun _ h' => h.Ends h') h := by
  rw [wp_bind]
  exact wp_mono (wp_collectBeforeAllocation_evolves hs.toWf hoperands)
    (fun operands₁ h₁ hpost => hm operands₁ h₁ hpost.1 hpost.2) fun _ _ hends => hends

/-- A string allocated from bytes that have been read. -/
theorem Evolves.wp_allocateBytes (he : h.Evolves h₁ cells cells₁) (hs : h.Stands) (hw₁ : h₁.Wf)
    (hp : h₁.store.newPayload (op.mapIds h.numberId) = some (.str bytes)) :
    wp (allocateDescriptor (Object.string bytes)) (fun id h' => h.Leaves h' op (some id))
      (fun _ h' => h.Ends h') h₁ := by
  refine he.wp_allocateDescriptor hs hw₁ (fun d hd => ?_) fun d hd => ?_
  · exact (builtFrom_string hd : BuiltFrom [] d.val).fresh nofun
  · rw [string_eq_ok hd]
    exact hp

theorem takes_allocateStringConcat (hs : h.Stands) (hoperands : ∀ v ∈ [left, right], h.Valid v) :
    wp (allocateStringConcat left right)
      (fun id h' => h.Leaves h' (.allocateStringConcat left right) (some id))
      (fun _ h' => h.Ends h') h := by
  unfold allocateStringConcat
  refine wp_query_bind (fun _ _ => ?_) fun _ _ => ends_refl hs.toWf
  refine wp_query_bind (fun _ _ => ?_) fun _ _ => ends_refl hs.toWf
  refine wp_collectBeforeAllocation_takes hs hoperands fun operands h₁ hw₁ hbefore => ?_
  refine wp_query_bind (fun leftBytes hleft => ?_) fun _ _ => hbefore.ends hw₁
  refine wp_query_bind (fun rightBytes hright => ?_) fun _ _ => hbefore.ends hw₁
  refine wp_ite (fun _ => hbefore.ends hw₁) fun _ => hbefore.wp_allocateBytes hs hw₁ ?_
  have hn₁ := hbefore.numbered hs.numbered
  have hleft' := bytes_of_stringBytesOf hn₁ hleft
  have hright' := bytes_of_stringBytesOf hn₁ hright
  obtain ⟨hl, hr⟩ := operands_eq hbefore.map_numberValue
  rw [hl] at hleft'
  rw [hr] at hright'
  show (h₁.store.bytes (h.numberValue left) >>= fun l => _) = _
  rw [hleft']
  show (h₁.store.bytes (h.numberValue right) >>= fun r => _) = _
  rw [hright']
  rfl

theorem takes_allocateStringSubstring (hs : h.Stands) (hsource : ∀ v ∈ [source], h.Valid v) :
    wp (allocateStringSubstring source lo hi)
      (fun id h' => h.Leaves h' (.allocateStringSubstring source lo hi) (some id))
      (fun _ h' => h.Ends h') h := by
  unfold allocateStringSubstring
  refine wp_query_bind (fun _ _ => ?_) fun _ _ => ends_refl hs.toWf
  refine wp_collectBeforeAllocation_takes hs hsource fun operands h₁ hw₁ hbefore => ?_
  refine wp_query_bind (fun bytes hbytes => ?_) fun _ _ => hbefore.ends hw₁
  refine hbefore.wp_allocateBytes hs hw₁ ?_
  have hsame := bytes_of_stringBytesOf (hbefore.numbered hs.numbered) hbytes
  rw [operand_eq hbefore.map_numberValue] at hsame
  show (h₁.store.bytes (h.numberValue source) >>= fun b => _) = _
  rw [hsame]
  rfl

theorem takes_builderToString (hs : h.Stands) (hbuilder : ∀ v ∈ [builder], h.Valid v) :
    wp (builderToString builder) (fun id h' => h.Leaves h' (.builderToString builder) (some id))
      (fun _ h' => h.Ends h') h := by
  unfold builderToString
  refine wp_query_bind (fun _ _ => ?_) fun _ _ => ends_refl hs.toWf
  refine wp_query_bind (fun _ _ => ?_) fun _ _ => ends_refl hs.toWf
  rw [wp_bind]
  refine wp_mono (wp_finishActiveCompaction_evolves hs.toWf hbuilder) (fun cells₁ h₁ hpost => ?_)
    fun _ _ he => he.elim
  obtain ⟨hw₁, -, hfinished⟩ := hpost
  rw [wp_bind]
  refine wp_mono (wp_collectBeforeAllocation_evolves hw₁ hfinished.valid)
    (fun cells₂ h₂ hpost => ?_) fun _ _ hends => hends.after hfinished
  obtain ⟨hw₂, hbefore⟩ := hpost
  have he := hfinished.trans hbefore
  refine wp_query_bind (fun id hid => ?_) fun _ _ => he.ends hw₂
  refine wp_query_bind (fun found hfound => ?_) fun _ _ => he.ends hw₂
  obtain ⟨slot, o, capacity, bytes⟩ := found
  obtain ⟨hr, hp⟩ := checkedBuilder_eq_ok hfound
  refine he.wp_allocateBytes hs hw₂ ?_
  -- the builder of the store
  have hname := operand_eq he.map_numberValue
  rw [requireObjectReferenceValue_eq_ok hid, numberValue_object hr] at hname
  have hobject := store_objects_of_objectAt (he.numbered hs.numbered) (objectAt_of_resolve hr)
  rw [hp] at hobject
  show h₂.store.newPayload (.builderToString (h.numberValue builder)) = _
  rw [← hname]
  simp only [Store.newPayload, numbered_slot, hobject]
  rfl

end Strings

/-! ### Interning -/

section Interning

variable {h h₁ h' : Heap} {source value : Value} {id existing : ObjectId} {bytes : List UInt8}
  {contentHash : UInt64} {entries : List InternEntry} {cells cells₁ : List Value} {k : ℕ}

theorem Barriered.evolves (hb : h.Barriered h') (hs : h.Sound)
    (hcells : ∀ value ∈ cells, h.Valid value) : h.Evolves h' cells cells := by
  have hrest := hb.rest
  refine evolves_inPlace (fun id slot o hr => ⟨o, hb.resolve_iff.mpr hr⟩) (fun slot o ho => ?_)
    (fun slot o' ho' => ?_) (by rw [hrest]) (by rw [hrest]) (by rw [hrest]) (by rw [hrest]) hs hcells
  · exact ⟨o, (hb.objectAt slot).trans ho, rfl, rfl⟩
  · exact ⟨o', (hb.objectAt slot).symm.trans ho'⟩

/-- A lookup that finds a canonical string has compared the bytes. -/
theorem checkedString_of_findInterned (hsource : h.checkedString id = .ok bytes)
    (hf : h.findInterned contentHash id entries = .ok (some existing)) :
    (∃ entry ∈ entries, entry.canonical = existing) ∧ h.checkedString existing = .ok bytes := by
  induction entries with
  | nil => cases hf
  | cons entry entries ih =>
    have htail : h.findInterned contentHash id entries = .ok (some existing) →
        (∃ entry' ∈ entry :: entries, entry'.canonical = existing) ∧
          h.checkedString existing = .ok bytes := by
      intro hrest
      obtain ⟨⟨entry', hentry', heq⟩, hbytes⟩ := ih hrest
      exact ⟨⟨entry', List.mem_cons_of_mem _ hentry', heq⟩, hbytes⟩
    unfold findInterned at hf
    split at hf
    · obtain ⟨equal, hequal, hf⟩ := bind_eq_ok.mp hf
      split at hf
      · next heq =>
        cases hf
        refine ⟨⟨entry, List.mem_cons_self, rfl⟩, ?_⟩
        obtain ⟨bytes', hbytes', hrest⟩ := bind_eq_ok.mp hequal
        obtain ⟨bytes₂, hbytes₂, hrest⟩ := bind_eq_ok.mp hrest
        rw [hsource] at hbytes₂
        cases hbytes₂
        have hsame : (bytes' == bytes) = equal := Except.ok.inj hrest
        rw [heq, beq_iff_eq] at hsame
        rw [hbytes', hsame]
      · exact htail hf
    · exact htail hf

/-- The string of an entry, in the store. -/
theorem interned_stringAt (hn : h.Numbered) (hk : h.store.interned k)
    (hbytes : h.store.objects k = some (.str bytes)) :
    ∃ entry ∈ h.internTable, ∃ slot o, h.resolve entry.canonical = .ok (slot, o) ∧
      o.payload = .str bytes := by
  obtain ⟨entry, hentry, hnumber⟩ := hk
  obtain ⟨slot, o, hr, heq⟩ := number_eq_some.mp hnumber
  rw [numbered_inj] at heq
  rw [heq, store_objects_of_objectAt hn (objectAt_of_resolve hr)] at hbytes
  refine ⟨entry, hentry, slot, o, hr, ?_⟩
  have hkind : o.payload.kind = .str := by
    have hvisible : (h.numberPayload o.payload).kind = .str := by rw [Option.some.inj hbytes]; rfl
    rwa [numberPayload, Payload.kind_visible, Payload.kind_forward] at hvisible
  cases hp : o.payload with
  | str bytes' =>
    rw [hp] at hbytes
    exact Option.some.inj hbytes
  | _ =>
    rw [hp] at hkind
    cases hkind

/-- The table gets a new canonical string. -/
theorem store_canonized (contentHash : UInt64) {slot : ℕ} {o : Object} (hr : h.resolve id = .ok (slot, o)) (slot' : ℕ) :
    store { h with
      internTable := insertInSlotOrder (fun entry => entry.canonical.slot) slot'
        ⟨contentHash, id⟩ h.internTable } = h.store.canonized o.serial := by
  refine store_ext (fun _ _ => Iff.rfl) rfl rfl (fun k => ?_) rfl
  constructor
  · rintro ⟨entry, hentry, hnumber⟩
    rcases mem_insertInSlotOrder.mp hentry with rfl | hold
    · have hnumber : h.number id = some (numbered k) := hnumber
      rw [number_of_resolve hr, Option.some.injEq, numbered_inj] at hnumber
      exact .inl hnumber.symm
    · exact .inr ⟨entry, hold, hnumber⟩
  · rintro (rfl | ⟨entry, hentry, hnumber⟩)
    · exact ⟨⟨contentHash, id⟩, mem_insertInSlotOrder.mpr (.inl rfl), number_of_resolve hr⟩
    · exact ⟨entry, mem_insertInSlotOrder.mpr (.inr hentry), hnumber⟩

theorem takes_internNewString (hs : h.Stands) (he : h.Evolves h₁ [source] [.object id])
    (hw₁ : h₁.Wf) (hsource : h₁.checkedString id = .ok bytes) (hnew : h₁.NotInterned bytes) :
    wp (internNewString id (stringContentHash bytes))
      (fun id' h' => h.Leaves h' (.internString source) (some id')) (fun _ h' => h.Ends h') h₁ := by
  have hcells : ∀ value ∈ [Value.object id], h₁.Valid value := he.valid
  unfold internNewString
  rw [wp_bind]
  refine wp_mono (wp_collectBeforeAllocation_evolves hw₁ hcells) (fun operands h₂ hpost => ?_)
    fun _ _ hends => hends.after he
  obtain ⟨hw₂, hbefore⟩ := hpost
  have he₂ := he.trans hbefore
  have hs₁ := he.stands hs hw₁
  have hs₂ := hbefore.stands hs₁ hw₂
  refine wp_query_bind (fun bytes₂ hbytes₂ => ?_) fun _ _ => he₂.ends hw₂
  have hsource₁ := bytes_of_checkedString hs₁.numbered hsource
  have hsource₂ := bytes_of_stringBytesOf hs₂.numbered hbytes₂
  rw [operand_eq hbefore.map_numberValue] at hsource₂
  have hcollects := hbefore.collects hw₁ hw₂ hs₁.numbered
  -- the collection has carried the bytes of the source
  obtain ⟨id₂, heq₂, hstring₂⟩ := stringBytesOf_eq_ok hbytes₂
  have hsame : bytes₂ = bytes := by
    obtain ⟨n₁, hn₁, ho₁⟩ := Store.bytes_eq_some.mp hsource₁
    obtain ⟨n₂, hn₂, ho₂⟩ := Store.bytes_eq_some.mp hsource₂
    rw [hn₁] at hn₂
    cases hn₂
    rw [hcollects.objects_string ho₁ (Store.alive_of_objects ho₂)] at ho₂
    cases ho₂
    rfl
  rw [hsame] at hsource₂
  rw [hsame]
  have hnew₁ : ∀ j, h₂.store.interned j → h₂.store.objects j ≠ some (.str bytes) := by
    intro j hj hbytes
    obtain ⟨hj₁, halive⟩ := (hcollects.interned j).mp hj
    obtain ⟨content, hcontent⟩ := hs₁.sound.strings j hj₁
    have hsame := hcollects.objects_string hcontent halive
    rw [hbytes] at hsame
    cases hsame
    obtain ⟨entry, hentry, slot, o, hr, hp⟩ := interned_stringAt hs₁.numbered hj₁ hcontent
    obtain ⟨o', ho', -⟩ := hw₁.interns.listed hentry
    have hchecked := checkedString_eq_ok.mpr ⟨slot, o, hr, hp⟩
    exact hnew entry hentry (stringAt_of_checkedString ⟨o', ho'⟩ hchecked)
  have hfresh : ∀ d, Object.string bytes = .ok d → h₂.Fresh d.val := fun d hd =>
    (builtFrom_string hd : BuiltFrom [] d.val).fresh nofun
  rw [wp_bind]
  refine wp_mono (wp_and (wp_allocateDescriptor hw₂ hfresh) (wp_allocateDescriptor_born hw₂ hfresh))
    (fun canonical h₃ hpost => ?_) fun _ _ hpost => hpost.2.after he₂
  obtain ⟨⟨d, hd, ha⟩, d', hd', hborn⟩ := hpost
  rw [hd] at hd'
  cases hd'
  have hstring := string_eq_ok hd
  obtain ⟨k, hk⟩ := hborn.hatched hs₂ d.property (hfresh d hd)
  have hp : h₂.numberPayload d.val = .str bytes := by rw [hstring]; rfl
  have hafter := hk.collects
  rw [hp] at hafter
  -- no entry of the table has the bytes of the new string
  have hnew₃ : h₃.NotInterned bytes := by
    intro entry hentry hbytes
    obtain ⟨o, ho, hpo⟩ := hbytes
    have hr := resolve_of_lookup ho
    have hj : h₃.store.interned o.serial := ⟨entry, hentry, number_of_resolve hr⟩
    have hold := ((hafter.interned _).mp hj).1
    have hobject := store_objects_of_objectAt hk.numbered (objectAt_of_resolve hr)
    rw [hpo] at hobject
    obtain ⟨content, hcontent⟩ := hs₂.sound.strings _ hold
    have hbelow := hs₂.sound.below _ (Store.alive_of_objects hcontent)
    have hfresh := hk.fresh
    have hkept : (h₂.store.allocated k (.str bytes)).objects o.serial = some (.str content) := by
      rw [Store.objects_allocated, if_neg (by omega), hcontent]
    rw [hafter.objects_string hkept (Store.alive_of_objects hobject)] at hobject
    cases hobject
    exact hnew₁ _ hold hcontent
  have hw₄ := ha.wf.intern ha.settled (ha.string bytes hstring) hnew₃
  rw [wp_bind, wp_modify]
  refine wp_query_bind (fun _ _ => .inl ?_) fun e hfailed => ?_
  · obtain ⟨o, ho⟩ := ha.current
    have hr := resolve_of_lookup ho
    have hserial : o.serial = k := by
      have hnumber := hk.number
      rwa [numberId_of_resolve hr, numbered_inj] at hnumber
    have hcanonized := store_canonized (stringContentHash bytes) hr canonical.slot
    rw [hserial] at hcanonized
    refine takes_of_step hs hw₄ ⟨hk.numbered.unique, hk.numbered.below⟩ ?_
    have hnumber : numberId { h₃ with
        internTable := insertInSlotOrder (fun entry => entry.canonical.slot) canonical.slot
          ⟨stringContentHash bytes, canonical⟩ h₃.internTable } canonical = numbered k := hk.number
    rw [Option.map_some, hnumber, hcanonized]
    refine .interns (he₂.collects hs.toWf hw₂ hs.numbered) ?_ hnew₁ hk.fresh
      (hafter.canonized hk.alive) hk.alive
    show h₂.store.bytes (h.numberValue source) = some bytes
    rw [← (List.cons.inj he.map_numberValue).1, hsource₂]
  · rw [validateInternTable_eq_ok hw₄.interns] at hfailed
    cases hfailed

theorem takes_internString (hs : h.Stands) (hsource : ∀ v ∈ [source], h.Valid v) :
    wp (internString source) (fun id h' => h.Leaves h' (.internString source) (some id))
      (fun _ h' => h.Ends h') h := by
  unfold internString
  refine wp_query_bind (fun bytes₀ hbytes₀ => ?_) fun _ _ => ends_refl hs.toWf
  rw [wp_bind]
  refine wp_mono (wp_finishActiveCompaction_evolves hs.toWf hsource) (fun cells₁ h₁ hpost => ?_)
    fun _ _ he => he.elim
  obtain ⟨hw₁, -, he⟩ := hpost
  obtain ⟨id₀, rfl, -⟩ := stringBytesOf_eq_ok hbytes₀
  obtain ⟨id₁, rfl⟩ := he.singleton
  have hs₁ := he.stands hs hw₁
  refine wp_query_ok (rfl : Object.requireObjectReferenceValue (.object id₁) _ = .ok id₁) ?_
  refine wp_query_bind (fun contentHash hhash => ?_) fun _ _ => he.ends hw₁
  obtain ⟨bytes, hbytes, rfl⟩ := map_eq_ok.mp hhash
  refine wp_query_bind (fun found hfound => ?_) fun _ _ => he.ends hw₁
  cases found with
  | none =>
    exact takes_internNewString hs he hw₁ hbytes
      (not_stringAt_of_findInterned hbytes hw₁.interns.hashed hfound)
  | some existing =>
    obtain ⟨⟨entry, hentry, rfl⟩, hstring⟩ := checkedString_of_findInterned hbytes hfound
    obtain ⟨slot, o, hr, hp⟩ := checkedString_eq_ok.mp hstring
    rw [wp_bind]
    refine wp_mono (wp_shadeInterned hw₁ ⟨slot, o, hr⟩) (fun _ h' hb => .inl ?_)
      fun _ _ he => he.elim
    have hshaded := he.trans (hb.evolves hw₁.toSound he.valid)
    have hs' := hshaded.stands hs hb.wf
    have hr' := hb.resolve_iff.mpr hr
    obtain ⟨slot₁, o₁, hr₁, hp₁⟩ := checkedString_eq_ok.mp hbytes
    have hbytes' : h'.checkedString id₁ = .ok bytes :=
      checkedString_eq_ok.mpr ⟨slot₁, o₁, hb.resolve_iff.mpr hr₁, hp₁⟩
    have hsource' := bytes_of_checkedString hs'.numbered hbytes'
    rw [(List.cons.inj hshaded.map_numberValue).1] at hsource'
    refine takes_of_step hs hb.wf hs'.numbered ?_
    rw [Option.map_some, numberId_of_resolve hr']
    refine .interned (hshaded.collects hs.toWf hb.wf hs.numbered) hsource' ?_
      ⟨entry, ?_, number_of_resolve hr'⟩
    · rw [store_objects_of_objectAt hs'.numbered (objectAt_of_resolve hr'), hp]
      rfl
    · rw [hb.rest]
      exact hentry

end Interning

end Heap

end LanguageRuntime.Gc
