import LanguageRuntime.Gc.CompactTheorems

/-!
# The passes over the moved objects

A movement gives identifiers new ones. The passes that follow it rewrite every field of the
moved objects and every entry of the side tables, and none of them fails when the movement
keeps what the kept objects refer to.
-/

namespace LanguageRuntime.Gc

open LanguageRuntime LanguageRuntime.Library

/-! ## Forwarding the fields of an object -/

/-- Forwards the entries of a map. -/
def MapPayload.forward (F : ObjectId → Option ObjectId) (m : MapPayload) : MapPayload where
  layoutIndex := m.layoutIndex
  keyIsRef := m.keyIsRef
  valueIsRef := m.valueIsRef
  entries := m.entries.map
    (MapEntry.mapReferenceFields (fun id => (F id).getD id) m.keyIsRef m.valueIsRef)
  lookupIndex := m.lookupIndex

namespace Payload

/-- Forwards strong fields, and weak ones where the collector does not clear them. -/
def forward (F : ObjectId → Option ObjectId) (p : Payload) : Payload :=
  ((p.mapReferenceFields fun id => (F id).getD id).forwardWeakTarget F).forwardEphemeron F

/-- Every strong reference of the payload is forwarded, and the value of an ephemeron whose
key is. -/
def Forwards (F : ObjectId → Option ObjectId) (p : Payload) : Prop :=
  (∀ id, .object id ∈ p.referenceFields → (F id).isSome = true) ∧
    ∀ key value, p = .ephemeron (.object key) (.object value) true → (F key).isSome = true →
      (F value).isSome = true

section Forward

variable (F : ObjectId → Option ObjectId) (p : Payload)

@[simp] theorem kind_forward : (p.forward F).kind = p.kind := by
  simp [forward]

@[simp] theorem storageSlotCount_forward : (p.forward F).storageSlotCount = p.storageSlotCount := by
  simp [forward]

@[simp] theorem referenceFields_forward : (p.forward F).referenceFields =
    p.referenceFields.map (Value.mapObject fun id => (F id).getD id) := by
  simp [forward]

theorem forwardWeakTarget_of_kind {p : Payload} (h : p.kind ≠ .weakRef) :
    p.forwardWeakTarget F = p := by
  cases p <;> first | rfl | exact absurd rfl h

theorem forwardEphemeron_of_kind {p : Payload} (h : p.kind ≠ .ephemeron) :
    p.forwardEphemeron F = p := by
  cases p <;> first | rfl | exact absurd rfl h

theorem forward_str (bytes : List UInt8) : (str bytes).forward F = str bytes := rfl

theorem forward_map (m : MapPayload) : (map m).forward F = map (m.forward F) := rfl

theorem forward_eq_str_iff {p : Payload} {bytes : List UInt8} :
    p.forward F = .str bytes ↔ p = .str bytes := by
  constructor
  · intro hp
    have hkind : p.kind = .str := by
      rw [← kind_forward F p, hp]
      rfl
    cases p <;> first | exact hp | exact nomatch hkind
  · rintro rfl
    rfl

end Forward

/-- Every reference in a forwarded payload is a forwarded reference. -/
theorem mem_allFields_forward {F : ObjectId → Option ObjectId} {p : Payload}
    (hF : p.Forwards F) (hshape : p.DescriptorShape) {id' : ObjectId} (h : .object id' ∈ (p.forward F).allFields) :
    ∃ id, .object id ∈ p.allFields ∧ F id = some id' := by
  obtain ⟨hstrong, hvalue⟩ := hF
  rw [allFields, List.mem_append] at h
  rcases h with h | h
  · rw [referenceFields_forward, List.mem_map] at h
    obtain ⟨value, hmem, heq⟩ := h
    cases value with
    | object id =>
      have hsome := hstrong id hmem
      obtain ⟨id'', hid''⟩ := Option.isSome_iff_exists.mp hsome
      rw [Value.mapObject_object, hid''] at heq
      cases heq
      exact ⟨id, List.mem_append_left _ hmem, hid''⟩
    | _ => cases heq
  · cases p with
    | weakRef target =>
      cases target with
      | object id =>
        cases hid : F id with
        | none => simp [forward, mapReferenceFields, forwardWeakTarget, forwardEphemeron, weakFields, hid] at h
        | some id'' =>
          refine ⟨id, by simp [allFields, weakFields], ?_⟩
          simp [forward, mapReferenceFields, forwardWeakTarget, forwardEphemeron, weakFields, hid] at h
          rw [hid, h]
      | _ => simp [forward, mapReferenceFields, forwardWeakTarget, forwardEphemeron, weakFields] at h
    | ephemeron key value valueIsRef =>
      cases key with
      | object key =>
        cases hkey : F key with
        | none =>
          cases valueIsRef <;>
            simp [forward, mapReferenceFields, forwardWeakTarget, forwardEphemeron, weakFields, hkey] at h
        | some key' =>
          cases valueIsRef with
          | false =>
            simp [forward, mapReferenceFields, forwardWeakTarget, forwardEphemeron, weakFields, hkey] at h
            exact ⟨key, by simp [allFields, weakFields], by rw [hkey, h]⟩
          | true =>
            simp only [forward, mapReferenceFields, forwardWeakTarget, forwardEphemeron, weakFields,
              hkey, if_true, List.mem_cons, List.not_mem_nil, or_false] at h
            rcases h with h | h
            · cases h
              exact ⟨key, by simp [allFields, weakFields], hkey⟩
            · cases value with
              | object id =>
                obtain ⟨id'', hid''⟩ :=
                  Option.isSome_iff_exists.mp (hvalue key id rfl (by rw [hkey]; rfl))
                rw [Value.mapObject_object, hid''] at h
                cases h
                exact ⟨id, by simp [allFields, weakFields], hid''⟩
              | _ => cases h
      | _ =>
        -- an ephemeron without a key object holds no references
        cases value <;> cases valueIsRef <;>
          simp [forward, mapReferenceFields, forwardWeakTarget, forwardEphemeron, weakFields,
            DescriptorShape, descriptorError, Value.isReference] at h hshape
    | _ => cases h

end Payload

namespace Object

/-- Forwards every field of an object. -/
def forward (F : ObjectId → Option ObjectId) (o : Object) : Object :=
  ((o.mapReferenceFields fun id => (F id).getD id).forwardWeakTarget F).forwardEphemeron F

@[simp] theorem payload_forward (F : ObjectId → Option ObjectId) (o : Object) :
    (o.forward F).payload = o.payload.forward F := rfl

@[simp] theorem generation_forward (F : ObjectId → Option ObjectId) (o : Object) :
    (o.forward F).generation = o.generation := rfl

@[simp] theorem marked_forward (F : ObjectId → Option ObjectId) (o : Object) :
    (o.forward F).marked = o.marked := rfl

@[simp] theorem serial_forward (F : ObjectId → Option ObjectId) (o : Object) :
    (o.forward F).serial = o.serial := rfl

@[simp] theorem width_forward (F : ObjectId → Option ObjectId) (o : Object) :
    (o.forward F).width = o.width := o.payload.storageSlotCount_forward F

theorem ext_payload {o o' : Object} (hmarked : o.marked = o'.marked)
    (hgeneration : o.generation = o'.generation) (hpayload : o.payload = o'.payload)
    (hserial : o.serial = o'.serial) : o = o' := by
  cases o
  cases o'
  simp_all

theorem forwardWeakTarget_of_kind {F : ObjectId → Option ObjectId} {o : Object}
    (h : o.payload.kind ≠ .weakRef) : o.forwardWeakTarget F = o :=
  ext_payload rfl rfl (Payload.forwardWeakTarget_of_kind F h) rfl

theorem forwardEphemeron_of_kind {F : ObjectId → Option ObjectId} {o : Object}
    (h : o.payload.kind ≠ .ephemeron) : o.forwardEphemeron F = o :=
  ext_payload rfl rfl (Payload.forwardEphemeron_of_kind F h) rfl

end Object

/-! ## Forwarding identifiers -/

namespace Heap

/-- The new identifier of what `id` names, when `φ` gives the object at every slot its new
identifier. -/
def forwardBy (h : Heap) (φ : ℕ → Option ObjectId) (id : ObjectId) : Option ObjectId :=
  match h.resolve id with
  | .ok (slot, _) => φ slot
  | .error _ => none

section ForwardId

variable {h : Heap} {forwarding : ForwardingTable} {id : ObjectId} {slot : ℕ} {o : Object}

theorem forwardBy_of_resolve {φ : ℕ → Option ObjectId} (hr : h.resolve id = .ok (slot, o)) :
    h.forwardBy φ id = φ slot := by
  rw [forwardBy, hr]

theorem forwardBy_of_not_resolves {φ : ℕ → Option ObjectId} (hr : ¬h.Resolves id) :
    h.forwardBy φ id = none := by
  rw [forwardBy]
  cases hres : h.resolve id with
  | ok found => exact absurd ⟨found.1, found.2, hres⟩ hr
  | error e => rfl

theorem forwardId_of_resolve (hr : h.resolve id = .ok (slot, o)) :
    h.forwardId forwarding id = .ok (forwarding.getD slot none) := by
  rw [forwardId, checkedSlot, hr]
  rfl

theorem forwardId?_eq (h : Heap) (forwarding : ForwardingTable) :
    h.forwardId? forwarding = h.forwardBy fun slot => forwarding.getD slot none := by
  funext id
  rw [forwardId?, forwardBy]
  cases hr : h.resolve id with
  | ok found =>
    obtain ⟨slot, o⟩ := found
    rw [forwardId_of_resolve hr]
  | error e =>
    rw [forwardId, checkedSlot, hr]
    rfl

theorem forwardIdD_eq (h : Heap) (forwarding : ForwardingTable) :
    h.forwardIdD forwarding = fun id => (h.forwardId? forwarding id).getD id := by
  funext id
  rw [forwardIdD, forwardId?]
  cases h.forwardId forwarding id with
  | ok destination => cases destination <;> rfl
  | error e => rfl

theorem forwardId_of_resolves (hr : h.Resolves id) :
    h.forwardId forwarding id = .ok (h.forwardId? forwarding id) := by
  obtain ⟨slot, o, hr⟩ := hr
  rw [forwardId?, forwardId_of_resolve hr]

/-- An identifier that is forwarded resolves. -/
theorem resolves_of_forwardId? {id' : ObjectId} (hF : h.forwardId? forwarding id = some id') :
    h.Resolves id := by
  rw [forwardId?_eq, forwardBy] at hF
  cases hr : h.resolve id with
  | ok found => exact ⟨found.1, found.2, hr⟩
  | error e =>
    rw [hr] at hF
    exact nomatch hF

theorem rewriteValue_eq_ok {value : Value}
    (hF : ∀ id, value = .object id → (h.forwardId? forwarding id).isSome = true) :
    h.rewriteValue forwarding value = .ok (value.mapObject (h.forwardIdD forwarding)) := by
  cases value with
  | object id =>
    obtain ⟨id', hid'⟩ := Option.isSome_iff_exists.mp (hF id rfl)
    unfold rewriteValue
    simp only [forwardId_of_resolves (resolves_of_forwardId? hid'), hid', ok_bind, forwardIdD_eq,
      Value.mapObject_object, Option.getD_some]
    rfl
  | _ => rfl

end ForwardId

/-! ## The passes -/

section Passes

variable {h : Heap} {forwarding : ForwardingTable} {moved : List (Option Object)}

/-- The reference fields of the moved objects are rewritten when all of them are forwarded. -/
theorem rewriteObjects_eq_ok
    (hF : ∀ slot o, moved.getD slot none = some o → ∀ id, .object id ∈ o.payload.referenceFields →
      (h.forwardId? forwarding id).isSome = true) :
    moved.mapM (h.rewriteObject forwarding) =
      .ok (moved.map (Option.map (Object.mapReferenceFields (h.forwardIdD forwarding)))) := by
  refine mapM_eq_ok_map fun slot hslot => ?_
  cases slot with
  | none => rfl
  | some o =>
    obtain ⟨i, hi, hget⟩ := List.getElem_of_mem hslot
    have hfields : o.payload.referenceFields.mapM (h.rewriteValue forwarding) =
        .ok (o.payload.referenceFields.map (Value.mapObject (h.forwardIdD forwarding))) := by
      refine mapM_eq_ok_map fun value hvalue => rewriteValue_eq_ok fun id heq => ?_
      refine hF i o ?_ id (heq ▸ hvalue)
      rw [List.getD_eq_getElem _ _ hi, hget]
    unfold rewriteObject
    simp only [hfields, ok_bind]
    rfl

/-- A fold over a registry that touches the slots of the forwarded owners. -/
theorem foldlM_registry_eq_ok {F : ObjectId → Option ObjectId} {f : Object → Object}
    {pass : List (Option Object) × List ObjectId → ObjectId →
      Except HeapError (List (Option Object) × List ObjectId)}
    {registry : List ObjectId}
    (hnodup : ((registry.filterMap F).map ObjectId.slot).Nodup)
    (hdead : ∀ owner ∈ registry, ∀ state, F owner = none → pass state owner = .ok state)
    (hlive : ∀ owner ∈ registry, ∀ owner' state, F owner = some owner' →
      state.1.getD owner'.slot none = moved.getD owner'.slot none →
        pass state owner = .ok (touch f state.1 owner'.slot, state.2 ++ [owner'])) :
    registry.foldlM pass (moved, []) =
      .ok (((registry.filterMap F).map ObjectId.slot).foldl (touch f) moved,
        registry.filterMap F) := by
  have hgeneral : ∀ (done : List ObjectId) (rest : List ObjectId), done ++ rest = registry →
      rest.foldlM pass (((done.filterMap F).map ObjectId.slot).foldl (touch f) moved,
          done.filterMap F) =
        .ok (((registry.filterMap F).map ObjectId.slot).foldl (touch f) moved,
          registry.filterMap F) := by
    intro done rest
    induction rest generalizing done with
    | nil =>
      intro heq
      rw [List.append_nil] at heq
      rw [heq]
      rfl
    | cons owner rest ih =>
      intro heq
      have hmem : owner ∈ registry := heq ▸ by simp
      have hnext : (done ++ [owner]) ++ rest = registry := by simpa using heq
      rw [List.foldlM_cons]
      cases hF : F owner with
      | none =>
        rw [hdead owner hmem _ hF, ok_bind]
        have hih := ih (done ++ [owner]) hnext
        rwa [List.filterMap_append, List.filterMap_cons, hF, List.filterMap_nil,
          List.append_nil] at hih
      | some owner' =>
        -- the slot of this owner has not been touched before
        have hfresh : owner'.slot ∉ (done.filterMap F).map ObjectId.slot := by
          intro hin
          rw [← heq, List.filterMap_append, List.map_append, List.nodup_append] at hnodup
          refine hnodup.2.2 _ hin _ ?_ rfl
          rw [List.filterMap_cons, hF]
          exact List.mem_cons_self
        have hnodup' : ((done.filterMap F).map ObjectId.slot).Nodup := by
          rw [← heq, List.filterMap_append, List.map_append, List.nodup_append] at hnodup
          exact hnodup.1
        rw [hlive owner hmem owner' _ hF
          (by rw [getD_foldl_touch f moved hnodup', if_neg hfresh]), ok_bind]
        have hih := ih (done ++ [owner]) hnext
        rwa [List.filterMap_append, List.filterMap_cons, hF, List.filterMap_nil, List.map_append,
          List.foldl_append] at hih
  exact hgeneral [] registry rfl

theorem inSlotOrder_iff {ids : List ObjectId} :
    inSlotOrder ids = true ↔ ids.Pairwise (·.slot < ·.slot) := by
  induction ids with
  | nil => simp [inSlotOrder]
  | cons a ids ih =>
    cases ids with
    | nil => simp [inSlotOrder]
    | cons b ids =>
      rw [inSlotOrder, Bool.and_eq_true, decide_eq_true_eq, ih]
      constructor
      · rintro ⟨hlt, hordered⟩
        refine List.pairwise_cons.mpr ⟨fun c hc => ?_, hordered⟩
        rcases List.mem_cons.mp hc with rfl | hc
        · exact hlt
        · exact hlt.trans ((List.pairwise_cons.mp hordered).1 c hc)
      · intro hordered
        obtain ⟨hlt, hordered⟩ := List.pairwise_cons.mp hordered
        exact ⟨hlt b List.mem_cons_self, hordered⟩

theorem nodup_slots {ids : List ObjectId} (h : ids.Pairwise (·.slot < ·.slot)) :
    (ids.map ObjectId.slot).Nodup :=
  List.pairwise_map.mpr (h.imp fun hlt heq => absurd heq (Nat.ne_of_lt hlt))

theorem processWeakTargets_eq_ok
    (hordered : (h.weakRefs.filterMap (h.forwardId? forwarding)).Pairwise (·.slot < ·.slot))
    (howners : ∀ owner ∈ h.weakRefs, h.Resolves owner)
    (hmoved : ∀ owner ∈ h.weakRefs, ∀ owner', h.forwardId? forwarding owner = some owner' →
      ∃ o target, moved.getD owner'.slot none = some o ∧ o.payload = .weakRef target ∧
        h.Valid target) :
    h.processWeakTargets forwarding moved =
      .ok (((h.weakRefs.filterMap (h.forwardId? forwarding)).map ObjectId.slot).foldl
          (touch (Object.forwardWeakTarget (h.forwardId? forwarding))) moved,
        h.weakRefs.filterMap (h.forwardId? forwarding)) := by
  have hfold : h.weakRefs.foldlM (h.processWeakTarget forwarding) (moved, []) =
      .ok (((h.weakRefs.filterMap (h.forwardId? forwarding)).map ObjectId.slot).foldl
          (touch (Object.forwardWeakTarget (h.forwardId? forwarding))) moved,
        h.weakRefs.filterMap (h.forwardId? forwarding)) := by
    refine foldlM_registry_eq_ok (nodup_slots hordered) ?_ ?_
    · intro owner hmem state hF
      unfold processWeakTarget
      simp only [forwardId_of_resolves (howners owner hmem), hF, ok_bind]
      rfl
    · intro owner hmem owner' state hF hstate
      obtain ⟨o, target, ho, hp, hvalid⟩ := hmoved owner hmem owner' hF
      have htarget : ∀ id, target = .object id → ∃ slot, h.checkedSlot id = .ok slot := by
        intro id heq
        obtain ⟨slot, o', hr⟩ := hvalid id heq
        exact ⟨slot, checkedSlot_eq_ok.mpr ⟨o', hr⟩⟩
      have hresult : touch (Object.forwardWeakTarget (h.forwardId? forwarding)) state.1 owner'.slot =
          state.1.set owner'.slot (some (o.forwardWeakTarget (h.forwardId? forwarding))) := by
        rw [touch, hstate, ho]
        rfl
      unfold processWeakTarget
      simp only [forwardId_of_resolves (howners owner hmem), hF, ok_bind, hstate, ho, hp, hresult]
      cases target with
      | object id =>
        obtain ⟨slot, hslot⟩ := htarget id rfl
        simp only [hslot, ok_bind]
        rfl
      | _ => rfl
  unfold processWeakTargets
  rw [hfold, ok_bind]
  simp only [inSlotOrder_iff.mpr hordered, Bool.not_true, Bool.false_eq_true, if_false]
  rfl

theorem processInternTable_eq_ok {collectionWeakProcessing : Bool}
    (hordered : (h.internTable.filterMap fun entry => (h.forwardId? forwarding entry.canonical).map
      fun canonical => { entry with canonical := canonical }).Pairwise
        (·.canonical.slot < ·.canonical.slot))
    (hentries : ∀ entry ∈ h.internTable, h.Resolves entry.canonical)
    (hlive : collectionWeakProcessing = false →
      ∀ entry ∈ h.internTable, (h.forwardId? forwarding entry.canonical).isSome = true) :
    h.processInternTable forwarding collectionWeakProcessing =
      .ok (h.internTable.filterMap fun entry => (h.forwardId? forwarding entry.canonical).map
        fun canonical => { entry with canonical := canonical }) := by
  have hmap : h.internTable.mapM (h.processInternEntry forwarding collectionWeakProcessing) =
      .ok (h.internTable.map fun entry => (h.forwardId? forwarding entry.canonical).map
        fun canonical => { entry with canonical := canonical }) := by
    refine mapM_eq_ok_map fun entry hentry => ?_
    unfold processInternEntry
    simp only [forwardId_of_resolves (hentries entry hentry), ok_bind]
    cases hF : h.forwardId? forwarding entry.canonical with
    | some canonical => rfl
    | none =>
      cases hflag : collectionWeakProcessing with
      | true => rfl
      | false =>
        have hsome := hlive hflag entry hentry
        rw [hF] at hsome
        exact nomatch hsome
  unfold processInternTable
  rw [hmap, ok_bind, List.filterMap_map]
  show Except.ok _ = _
  congr 1
  refine List.mergeSort_of_pairwise (hordered.imp fun hlt => ?_)
  exact decide_eq_true (Nat.le_of_lt hlt)

theorem checkEphemeronForwarding_eq_ok {o : Object}
    (hvalid : ∀ value ∈ o.payload.allFields, h.Valid value)
    (hF : ∀ key value, o.payload = .ephemeron (.object key) (.object value) true →
      (h.forwardId? forwarding key).isSome = true → (h.forwardId? forwarding value).isSome = true) :
    h.checkEphemeronForwarding forwarding o.payload = .ok () := by
  cases hp : o.payload with
  | ephemeron key value valueIsRef =>
    cases key with
    | object key =>
      have hkey : h.Resolves key :=
        valid_object.mp (hvalid _ (by simp [hp, Payload.allFields, Payload.weakFields]))
      unfold checkEphemeronForwarding
      simp only [forwardId_of_resolves hkey, ok_bind]
      split
      · next hsome =>
        split
        · next valueId =>
          have hvalue : h.Resolves valueId :=
            valid_object.mp (hvalid _ (by simp [hp, Payload.allFields, Payload.weakFields]))
          have hsome' := hF key valueId hp hsome
          simp only [forwardId_of_resolves hvalue, ok_bind]
          rw [if_neg]
          · rfl
          · rw [Option.isNone_iff_eq_none]
            intro hnone
            rw [hnone] at hsome'
            cases hsome'
        · rfl
      · rfl
    | _ => rfl
  | _ => rfl

theorem processEphemerons_eq_ok
    (hordered : (h.ephemerons.filterMap (h.forwardId? forwarding)).Pairwise (·.slot < ·.slot))
    (howners : ∀ owner ∈ h.ephemerons, h.Resolves owner)
    (hmoved : ∀ owner ∈ h.ephemerons, ∀ owner', h.forwardId? forwarding owner = some owner' →
      ∃ o, moved.getD owner'.slot none = some o ∧
        h.checkEphemeronForwarding forwarding o.payload = .ok ()) :
    h.processEphemerons forwarding moved =
      .ok (((h.ephemerons.filterMap (h.forwardId? forwarding)).map ObjectId.slot).foldl
          (touch (Object.forwardEphemeron (h.forwardId? forwarding))) moved,
        h.ephemerons.filterMap (h.forwardId? forwarding)) := by
  refine foldlM_registry_eq_ok (nodup_slots hordered) ?_ ?_
  · intro owner hmem state hF
    unfold processEphemeron
    simp only [forwardId_of_resolves (howners owner hmem), hF, ok_bind]
    rfl
  · intro owner hmem owner' state hF hstate
    obtain ⟨o, ho, hcheck⟩ := hmoved owner hmem owner' hF
    have hresult : touch (Object.forwardEphemeron (h.forwardId? forwarding)) state.1 owner'.slot =
        state.1.set owner'.slot (some (o.forwardEphemeron (h.forwardId? forwarding))) := by
      rw [touch, hstate, ho]
      rfl
    unfold processEphemeron
    simp only [forwardId_of_resolves (howners owner hmem), hF, ok_bind, hstate, ho, hcheck, hresult]
    rfl

end Passes

end Heap

end LanguageRuntime.Gc
