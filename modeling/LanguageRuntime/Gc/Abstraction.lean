import LanguageRuntime.Gc.EvolutionTheorems
import LanguageRuntime.Gc.ObjectStore

/-!
# A heap as an object store

The store a heap stands for: every identifier that resolves is the number of the object it names.
Whatever moves or reclaims objects is a collection of that store, an allocation adds one object to
it and a field store replaces one payload.
-/

namespace LanguageRuntime.Gc

open LanguageRuntime LanguageRuntime.Library

/-! ## What the mutator sees of a payload -/

namespace Payload

variable {F : ObjectId → Option ObjectId} {p : Payload}

@[simp] theorem visible_visible : p.visible.visible = p.visible := by cases p <;> rfl

@[simp] theorem kind_visible : p.visible.kind = p.kind := by cases p <;> rfl

@[simp] theorem referenceFields_visible : p.visible.referenceFields = p.referenceFields := by
  cases p <;> rfl

@[simp] theorem weakFields_visible : p.visible.weakFields = p.weakFields := by cases p <;> rfl

@[simp] theorem allFields_visible : p.visible.allFields = p.allFields := by
  rw [allFields, referenceFields_visible, weakFields_visible, allFields]

theorem forward_visible : p.visible.forward F = (p.forward F).visible := by
  cases p with
  | weakRef target => cases target <;> rfl
  | ephemeron key value valueIsRef =>
    cases key with
    | object id => cases hid : F id <;> simp [forward, visible, mapReferenceFields,
        forwardWeakTarget, forwardEphemeron, hid]
    | _ => rfl
  | _ => rfl

theorem visible_eq_ephemeron {key value : Value} {valueIsRef : Bool} :
    p.visible = .ephemeron key value valueIsRef ↔ p = .ephemeron key value valueIsRef := by
  cases p <;> simp [visible]

theorem forwards_visible : p.visible.Forwards F ↔ p.Forwards F := by
  unfold Forwards
  rw [referenceFields_visible]
  simp only [visible_eq_ephemeron]

end Payload

namespace Heap

/-! ## Numbers -/

/-- The number of the object that `id` names, as a name of a store. -/
def number (h : Heap) (id : ObjectId) : Option ObjectId :=
  match h.resolve id with
  | .ok (_, o) => some (numbered o.serial)
  | .error _ => none

def numberId (h : Heap) (id : ObjectId) : ObjectId := (h.number id).getD id

def numberValue (h : Heap) (value : Value) : Value := value.mapObject h.numberId

/-- A payload as the store has it. -/
def numberPayload (h : Heap) (p : Payload) : Payload := (p.forward h.number).visible

def numberRoot (h : Heap) (root : HandleRoot) : HandleRoot :=
  { root with slot := h.numberValue root.slot }

/-- The store that the heap stands for. -/
def store (h : Heap) : Store where
  objects k := (h.objects.findSome? fun slot => slot.filter (·.serial = k)).map
    fun o => h.numberPayload o.payload
  roots := h.rootCells.map h.numberValue
  handles := h.handleRoots.map h.numberRoot
  interned k := ∃ entry ∈ h.internTable, h.number entry.canonical = some (numbered k)
  next := h.nextSerial

/-- The serial numbers tell the objects apart, and the next one is new. -/
structure Numbered (h : Heap) : Prop where
  unique : ∀ slot slot' o o', h.objectAt slot = some o → h.objectAt slot' = some o' →
    o.serial = o'.serial → slot = slot'
  below : ∀ slot o, h.objectAt slot = some o → o.serial < h.nextSerial

section Numbers

variable {h h' : Heap} {id : ObjectId} {slot k : ℕ} {o : Object} {value : Value} {p q : Payload}

theorem number_of_resolve (hr : h.resolve id = .ok (slot, o)) :
    h.number id = some (numbered o.serial) := by
  rw [number, hr]

theorem number_eq_some {id' : ObjectId} :
    h.number id = some id' ↔ ∃ slot o, h.resolve id = .ok (slot, o) ∧ id' = numbered o.serial := by
  constructor
  · intro hid
    unfold number at hid
    split at hid
    · next slot o hr => exact ⟨slot, o, hr, (Option.some.inj hid).symm⟩
    · cases hid
  · rintro ⟨slot, o, hr, rfl⟩
    exact number_of_resolve hr

@[simp] theorem numberValue_object (hr : h.resolve id = .ok (slot, o)) :
    h.numberValue (.object id) = .object (numbered o.serial) := by
  rw [numberValue, Value.mapObject_object, numberId, number_of_resolve hr, Option.getD_some]

theorem numberValue_scalar (hv : value.isObject = false) : h.numberValue value = value := by
  cases value with
  | object id => exact nomatch hv
  | _ => rfl

theorem isObject_numberValue : (h.numberValue value).isObject = value.isObject := by
  cases value <;> rfl

/-- The fields of an object have numbers. -/
theorem forwards_number (hvalid : ∀ value ∈ p.allFields, h.Valid value) : p.Forwards h.number := by
  have hsome : ∀ id, .object id ∈ p.allFields → (h.number id).isSome = true := by
    intro id hid
    obtain ⟨slot, o, hr⟩ := valid_object.mp (hvalid _ hid)
    rw [number_of_resolve hr]
    rfl
  refine ⟨fun id hid => hsome id (List.mem_append_left _ hid), ?_⟩
  rintro key value rfl -
  exact hsome value (by simp [Payload.allFields, Payload.referenceFields, Payload.weakFields])

/-- The fields of an object are renamed, none is cleared. -/
theorem numberPayload_eq (hvalid : ∀ value ∈ p.allFields, h.Valid value) :
    h.numberPayload p = (p.forward fun id => some (h.numberId id)).visible := by
  refine congrArg _ (Payload.forward_congr fun id hid => ?_)
  obtain ⟨slot, o, hr⟩ := valid_object.mp (hvalid _ hid)
  rw [numberId, number_of_resolve hr, Option.getD_some]

theorem store_objects (hn : h.Numbered) : h.store.objects k = some q ↔
    ∃ slot o, h.objectAt slot = some o ∧ o.serial = k ∧ q = h.numberPayload o.payload := by
  have hmem : ∀ o, some o ∈ h.objects ↔ ∃ slot, h.objectAt slot = some o := by
    intro o
    constructor
    · intro ho
      obtain ⟨slot, hslot, hget⟩ := List.getElem_of_mem ho
      exact ⟨slot, by rw [objectAt, List.getD_eq_getElem _ _ hslot, hget]⟩
    · rintro ⟨slot, ho⟩
      have hlt := lt_length_of_objectAt ho
      rw [objectAt, List.getD_eq_getElem _ _ hlt] at ho
      exact ho ▸ List.getElem_mem hlt
  show Option.map _ _ = _ ↔ _
  rw [Option.map_eq_some_iff]
  constructor
  · rintro ⟨o, hfind, rfl⟩
    obtain ⟨slot?, hslot?, hfilter⟩ := List.exists_of_findSome?_eq_some hfind
    obtain ⟨rfl, hserial⟩ := Option.filter_eq_some_iff.mp hfilter
    obtain ⟨slot, ho⟩ := (hmem o).mp hslot?
    exact ⟨slot, o, ho, by simpa using hserial, rfl⟩
  · rintro ⟨slot, o, ho, rfl, rfl⟩
    cases hfind : h.objects.findSome? fun slot => slot.filter (·.serial = o.serial) with
    | none =>
      have hnone := List.findSome?_eq_none_iff.mp hfind (some o) ((hmem o).mpr ⟨slot, ho⟩)
      simp at hnone
    | some o' =>
      obtain ⟨slot?, hslot?, hfilter⟩ := List.exists_of_findSome?_eq_some hfind
      obtain ⟨rfl, hserial⟩ := Option.filter_eq_some_iff.mp hfilter
      obtain ⟨slot', ho'⟩ := (hmem o').mp hslot?
      obtain rfl := hn.unique slot' slot o' o ho' ho (by simpa using hserial)
      rw [ho] at ho'
      cases ho'
      exact ⟨o, rfl, rfl⟩

theorem store_objects_of_objectAt (hn : h.Numbered) (ho : h.objectAt slot = some o) :
    h.store.objects o.serial = some (h.numberPayload o.payload) :=
  (store_objects hn).mpr ⟨slot, o, ho, rfl, rfl⟩

theorem store_alive (hn : h.Numbered) : h.store.Alive k ↔ ∃ slot o, h.objectAt slot = some o ∧
    o.serial = k := by
  constructor
  · intro halive
    obtain ⟨q, hq⟩ := Option.isSome_iff_exists.mp halive
    obtain ⟨slot, o, ho, hserial, -⟩ := (store_objects hn).mp hq
    exact ⟨slot, o, ho, hserial⟩
  · rintro ⟨slot, o, ho, rfl⟩
    exact Option.isSome_iff_exists.mpr ⟨_, store_objects_of_objectAt hn ho⟩

end Numbers

/-- What an object refers to is in the store. -/
theorem alive_of_mem_numberPayload {h : Heap} {p : Payload} (hn : h.Numbered)
    (hshape : p.DescriptorShape) (hvalid : ∀ value ∈ p.allFields, h.Valid value) {id : ObjectId}
    (hid : .object id ∈ (h.numberPayload p).allFields) : h.store.Alive id.slot := by
  rw [numberPayload, Payload.allFields_visible] at hid
  obtain ⟨id₀, -, hnumber⟩ := Payload.mem_allFields_forward (forwards_number hvalid) hshape hid
  obtain ⟨slot, o, hr, rfl⟩ := number_eq_some.mp hnumber
  exact (store_alive hn).mpr ⟨slot, o, objectAt_of_resolve hr, rfl⟩

theorem store_closed {h : Heap} (hw : h.Wf) (hn : h.Numbered) : h.store.Closed := by
  intro k p hp id hid
  obtain ⟨slot, o, ho, rfl, rfl⟩ := (store_objects hn).mp hp
  exact alive_of_mem_numberPayload hn o.shape (hw.fields slot o ho) hid

/-! ## Collections -/

section Collections

variable {h h' : Heap} {φ : ℕ → Option ℕ} {F : ObjectId → Option ObjectId}
  {cells cells' : List Value} {value value' : Value}

theorem EvolvesBy.numbered (he : h.EvolvesBy h' φ F) (hn : h.Numbered) : h'.Numbered where
  unique slot₁ slot₂ o₁ o₂ ho₁ ho₂ hserial := by
    obtain ⟨slot, o, ho, hφ⟩ := he.origin slot₁ o₁ ho₁
    obtain ⟨slot', o', ho', hφ'⟩ := he.origin slot₂ o₂ ho₂
    obtain ⟨o₃, ho₃, hserial₃, -⟩ := he.moved slot o slot₁ ho hφ
    obtain ⟨o₄, ho₄, hserial₄, -⟩ := he.moved slot' o' slot₂ ho' hφ'
    rw [ho₁] at ho₃
    rw [ho₂] at ho₄
    cases ho₃
    cases ho₄
    have hslot : slot = slot' := hn.unique slot slot' o o' ho ho' (by omega)
    rw [hslot, hφ'] at hφ
    exact (Option.some.inj hφ).symm
  below slot₁ o₁ ho₁ := by
    obtain ⟨slot, o, ho, hφ⟩ := he.origin slot₁ o₁ ho₁
    obtain ⟨o₃, ho₃, hserial₃, -⟩ := he.moved slot o slot₁ ho hφ
    rw [ho₁] at ho₃
    cases ho₃
    have hbelow := hn.below slot o ho
    have hnext := he.nextSerial
    omega

theorem Evolves.numbered (he : h.Evolves h' cells cells') (hn : h.Numbered) : h'.Numbered := by
  obtain ⟨φ, F, hF, -⟩ := he
  exact hF.numbered hn

/-- What has followed has the same number. -/
theorem EvolvesBy.numberValue_eq (he : h.EvolvesBy h' φ F) (hf : h.Follows h' φ value value') :
    h'.numberValue value' = h.numberValue value := by
  cases hf with
  | object hr hφ hr' =>
    obtain ⟨o', ho', hserial, -⟩ := he.moved _ _ _ (objectAt_of_resolve hr) hφ
    rw [objectAt_of_resolve hr'] at ho'
    cases ho'
    rw [numberValue_object hr, numberValue_object hr', hserial]
  | scalar hv => rw [numberValue_scalar hv, numberValue_scalar hv]

theorem EvolvesBy.map_numberValue (he : h.EvolvesBy h' φ F)
    (hf : List.Forall₂ (h.Follows h' φ) cells cells') :
    cells'.map h'.numberValue = cells.map h.numberValue := by
  induction hf with
  | nil => rfl
  | cons hv _ ih => rw [List.map_cons, List.map_cons, he.numberValue_eq hv, ih]

theorem Evolves.map_numberValue (he : h.Evolves h' cells cells') :
    cells'.map h'.numberValue = cells.map h.numberValue := by
  obtain ⟨φ, F, hF, hcells, -⟩ := he
  exact hF.map_numberValue hcells

/-- An object is alive afterwards if it has moved somewhere. -/
theorem EvolvesBy.alive_iff (he : h.EvolvesBy h' φ F) (hn : h.Numbered) {slot : ℕ} {o : Object}
    (ho : h.objectAt slot = some o) : h'.store.Alive o.serial ↔ (φ slot).isSome = true := by
  rw [store_alive (he.numbered hn)]
  constructor
  · rintro ⟨slot', o', ho', hserial⟩
    obtain ⟨slot₁, o₁, ho₁, hφ⟩ := he.origin slot' o' ho'
    obtain ⟨o₂, ho₂, hserial₂, -⟩ := he.moved slot₁ o₁ slot' ho₁ hφ
    rw [ho'] at ho₂
    cases ho₂
    obtain rfl := hn.unique slot₁ slot o₁ o ho₁ ho (by omega)
    rw [hφ]
    rfl
  · intro hsome
    obtain ⟨slot', hφ⟩ := Option.isSome_iff_exists.mp hsome
    obtain ⟨o', ho', hserial, -⟩ := he.moved slot o slot' ho hφ
    exact ⟨slot', o', ho', hserial⟩

/-- Renaming an identifier and numbering it is numbering it and keeping what is alive. -/
theorem EvolvesBy.bind_number (he : h.EvolvesBy h' φ F) (hn : h.Numbered) {id : ObjectId}
    (hid : h.Resolves id) : (F id).bind h'.number = (h.number id).bind h'.store.keep := by
  obtain ⟨slot, o, hr⟩ := hid
  obtain ⟨hsome, hfollows⟩ := he.renames id slot o hr
  have halive := he.alive_iff hn (objectAt_of_resolve hr)
  rw [number_of_resolve hr, Option.bind_some, Store.keep, numbered_slot]
  cases hid' : F id with
  | none =>
    rw [hid', Option.isSome_none] at hsome
    rw [← hsome] at halive
    rw [if_neg (fun hk => Bool.false_ne_true (halive.mp hk)), Option.bind_none]
  | some id' =>
    rw [hid', Option.isSome_some] at hsome
    rw [if_pos (halive.mpr hsome.symm), Option.bind_some]
    obtain ⟨slot', o', hφ, hr'⟩ := (hfollows id' hid').resolve hr
    obtain ⟨o₁, ho₁, hserial, -⟩ := he.moved slot o slot' (objectAt_of_resolve hr) hφ
    rw [objectAt_of_resolve hr'] at ho₁
    cases ho₁
    rw [number_of_resolve hr', hserial]

/-- The fields an evolution forwards are kept by the store. -/
theorem EvolvesBy.forwards_keep (he : h.EvolvesBy h' φ F) (hn : h.Numbered) {p : Payload}
    (hvalid : ∀ value ∈ p.allFields, h.Valid value) (hvalid' : ∀ value ∈ (p.forward F).allFields,
      h'.Valid value) (hF : p.Forwards F) : (p.forward h.number).Forwards h'.store.keep := by
  have hbind := hF.bind (forwards_number hvalid')
  have hall : ∀ id, .object id ∈ p.allFields →
      (F id).bind h'.number = (h.number id).bind h'.store.keep :=
    fun id hid => he.bind_number hn (hvalid _ hid id rfl)
  constructor
  · intro id hid
    obtain ⟨id₀, hid₀, hnumber⟩ := (forwards_number hvalid).mem_referenceFields_forward.mp hid
    have heq := hall id₀ (List.mem_append_left _ hid₀)
    rw [hnumber, Option.bind_some] at heq
    have hsome : ((F id₀).bind h'.number).isSome = true := hbind.1 id₀ hid₀
    exact heq ▸ hsome
  · intro key value hp hkey
    obtain ⟨key₀, value₀, rfl, hk, hv⟩ := (forwards_number hvalid).forward_eq_ephemeron_iff.mp hp
    have hkey₀ := hall key₀ (by simp [Payload.allFields, Payload.weakFields])
    have hvalue₀ := hall value₀ (by simp [Payload.allFields, Payload.weakFields])
    rw [hk, Option.bind_some] at hkey₀
    rw [hv, Option.bind_some] at hvalue₀
    have hsome : ((F value₀).bind h'.number).isSome = true :=
      hbind.2 key₀ value₀ rfl (show ((F key₀).bind h'.number).isSome = true from hkey₀ ▸ hkey)
    exact hvalue₀ ▸ hsome

/-- A canonical string is canonical as long as it is left. -/
theorem EvolvesBy.interned_iff (he : h.EvolvesBy h' φ F) (hn : h.Numbered) {k : ℕ} :
    h'.store.interned k ↔ h.store.interned k ∧ h'.store.Alive k := by
  constructor
  · rintro ⟨entry', hentry', hnumber⟩
    obtain ⟨entry, hentry, hf⟩ := he.canonical entry' hentry'
    obtain ⟨slot', o', hr', heq⟩ := number_eq_some.mp hnumber
    rw [numbered_inj] at heq
    refine ⟨⟨entry, hentry, ?_⟩, (store_alive (he.numbered hn)).mpr
      ⟨slot', o', objectAt_of_resolve hr', heq.symm⟩⟩
    obtain ⟨slot, o, hr⟩ := valid_object.mp hf.valid.1
    have hsame := he.numberValue_eq hf
    rw [numberValue_object hr, numberValue_object hr'] at hsame
    rw [number_of_resolve hr, ← Value.object.inj hsame, heq]
  · rintro ⟨⟨entry, hentry, hnumber⟩, halive⟩
    obtain ⟨slot, o, hr, heq⟩ := number_eq_some.mp hnumber
    rw [numbered_inj] at heq
    have hsome := (he.alive_iff hn (objectAt_of_resolve hr)).mp (heq ▸ halive)
    obtain ⟨entry', hentry', hf⟩ := he.interned entry hentry slot o hr hsome
    obtain ⟨slot', o', hr'⟩ := valid_object.mp hf.valid.2
    have hsame := he.numberValue_eq hf
    rw [numberValue_object hr, numberValue_object hr'] at hsame
    exact ⟨entry', hentry', by rw [number_of_resolve hr', Value.object.inj hsame, heq]⟩

/-- What has followed is alive. -/
theorem EvolvesBy.alive_of_follows (he : h.EvolvesBy h' φ F) (hn : h.Numbered)
    (hf : h.Follows h' φ value value') {k : ℕ} (hk : h.numberValue value = .object (Gc.numbered k)) :
    h'.store.Alive k := by
  cases hf with
  | object hr hφ hr' =>
    rw [numberValue_object hr] at hk
    cases hk
    exact (he.alive_iff hn (objectAt_of_resolve hr)).mpr (by rw [hφ]; rfl)
  | scalar hv =>
    rw [numberValue_scalar hv] at hk
    subst hk
    cases hv

theorem EvolvesBy.map_numberRoot (he : h.EvolvesBy h' φ F) {handles handles' : List HandleRoot}
    (hf : List.Forall₂ (h.FollowsRoot h' φ) handles handles') :
    handles'.map h'.numberRoot = handles.map h.numberRoot := by
  induction hf with
  | nil => rfl
  | @cons root root' _ _ hv _ ih =>
    have hroot : h'.numberRoot root' = h.numberRoot root := by
      show HandleRoot.mk _ _ = HandleRoot.mk _ _
      rw [hv.1, he.numberValue_eq hv.2]
    rw [List.map_cons, List.map_cons, hroot, ih]

/-- Whatever moves and reclaims objects is a collection of the store. -/
theorem Evolves.collects (he : h.Evolves h' cells cells') (hw : h.Wf) (hw' : h'.Wf)
    (hn : h.Numbered) : h.store.Collects h'.store := by
  obtain ⟨φ, F, hF, -, hroots, hhandles⟩ := he
  refine ⟨hF.map_numberValue hroots, hF.map_numberRoot hhandles, fun k hk => ?_, fun k q' hq' => ?_,
    store_closed hw' (hF.numbered hn), fun _ => hF.interned_iff hn, hF.nextSerial⟩
  · rcases List.mem_append.mp hk with hroot | hhandle
    · obtain ⟨value, hvalue, heq⟩ := List.mem_map.mp hroot
      obtain ⟨value', -, hf⟩ := forall₂_right (List.Forall₂.flip hroots) _ hvalue
      exact hF.alive_of_follows hn hf heq
    · obtain ⟨named, hnamed, heq⟩ := List.mem_map.mp hhandle
      obtain ⟨root, hroot, rfl⟩ := List.mem_map.mp hnamed
      obtain ⟨root', -, hf⟩ := forall₂_right (List.Forall₂.flip hhandles) _ hroot
      exact hF.alive_of_follows hn hf.2 heq
  · obtain ⟨slot', o', ho', rfl, rfl⟩ := (store_objects (hF.numbered hn)).mp hq'
    obtain ⟨slot, o, ho, hφ⟩ := hF.origin slot' o' ho'
    obtain ⟨o₁, ho₁, hserial, hp⟩ := hF.moved slot o slot' ho hφ
    rw [ho'] at ho₁
    cases ho₁
    have hclosed := hF.closed slot o ho (by rw [hφ]; rfl)
    have hvalid := hw.fields slot o ho
    have hvalid' := hw'.fields slot' o' ho'
    rw [hp] at hvalid'
    have hkeep := hF.forwards_keep hn hvalid hvalid' hclosed
    refine ⟨_, hserial ▸ store_objects_of_objectAt hn ho, Payload.forwards_visible.mpr hkeep, ?_⟩
    unfold numberPayload
    rw [Payload.forward_visible, hp,
      Payload.forward_bind hclosed (forwards_number hvalid'),
      Payload.forward_bind (forwards_number hvalid) hkeep]
    exact congrArg _ (Payload.forward_congr fun id hid => hF.bind_number hn (hvalid _ hid id rfl))

end Collections

/-! ## Effects -/

section Effects

variable {h h' : Heap} {id : ObjectId} {slot : ℕ} {o : Object} {d : Descriptor} {p : Payload}

/-- Payloads whose fields resolve alike have the same numbers. -/
theorem numberPayload_congr
    (hnumber : ∀ id, h.Resolves id → h'.number id = h.number id)
    (hvalid : ∀ value ∈ p.allFields, h.Valid value) : h'.numberPayload p = h.numberPayload p :=
  congrArg _ (Payload.forward_congr fun id hid => hnumber id (hvalid _ hid id rfl))

theorem map_numberValue_congr {cells : List Value}
    (hnumber : ∀ id, h.Resolves id → h'.number id = h.number id)
    (hvalid : ∀ value ∈ cells, h.Valid value) :
    cells.map h'.numberValue = cells.map h.numberValue := by
  refine List.map_congr_left fun value hvalue => ?_
  cases value with
  | object id =>
    rw [numberValue, numberValue, Value.mapObject_object, Value.mapObject_object, numberId,
      numberId, hnumber id (hvalid _ hvalue id rfl)]
  | _ => rfl

theorem map_numberRoot_congr {handles : List HandleRoot}
    (hnumber : ∀ id, h.Resolves id → h'.number id = h.number id)
    (hvalid : ∀ root ∈ handles, h.Valid root.slot) :
    handles.map h'.numberRoot = handles.map h.numberRoot := by
  refine List.map_congr_left fun root hroot => ?_
  have hslot : [root.slot].map h'.numberValue = [root.slot].map h.numberValue :=
    map_numberValue_congr hnumber (List.forall_mem_singleton.mpr (hvalid root hroot))
  show HandleRoot.mk _ _ = HandleRoot.mk _ _
  rw [(List.cons.inj hslot).1]

/-- Two stores with the same objects, roots, handles, canonical strings and bound. -/
theorem store_ext {s s' : Store} (hobjects : ∀ k p, s.objects k = some p ↔ s'.objects k = some p)
    (hroots : s.roots = s'.roots) (hhandles : s.handles = s'.handles)
    (hinterned : ∀ k, s.interned k ↔ s'.interned k) (hnext : s.next = s'.next) : s = s' := by
  have heq : s.objects = s'.objects := funext fun k => Option.ext fun p => hobjects k p
  have hsame : s.interned = s'.interned := funext fun k => propext (hinterned k)
  cases s
  cases s'
  simp only at heq hroots hhandles hsame hnext
  rw [heq, hroots, hhandles, hsame, hnext]

/-- The canonical strings of a table whose entries resolve alike. -/
theorem interned_congr (hnumber : ∀ id, h.Resolves id → h'.number id = h.number id) (hs : h.Sound)
    (htable : h'.internTable = h.internTable) {k : ℕ} : h'.store.interned k ↔ h.store.interned k := by
  show (∃ entry ∈ h'.internTable, _) ↔ ∃ entry ∈ h.internTable, _
  rw [htable]
  refine exists_congr fun entry => and_congr_right fun hentry => ?_
  rw [hnumber _ (hs.resolves_interned hentry)]

theorem Bears.objectAt (hb : h.Bears h' id p) (hw : h.Wf) (ho : h.objectAt slot = some o) :
    h'.objectAt slot = some o :=
  objectAt_of_resolve (hb.resolve _ _ _ (hw.storage.resolve_currentId ho))

/-- An object is the new one, or an old one. -/
theorem Bears.cases (hb : h.Bears h' id p) (ho : h'.objectAt slot = some o) :
    h.objectAt slot = some o ∨ h'.resolve id = .ok (slot, o) ∧ o.serial = h.nextSerial := by
  obtain ⟨base, new, hr, hnew, -⟩ := hb.object
  rcases hb.origin slot o ho with hold | hr'
  · exact .inl hold
  · rw [hr] at hr'
    cases hr'
    exact .inr ⟨hr, hnew⟩

theorem Bears.numbered (hb : h.Bears h' id p) (hn : h.Numbered) : h'.Numbered where
  unique slot slot' o o' ho ho' hserial := by
    rcases hb.cases ho with hold | ⟨hr, hnew⟩
    · have hbelow := hn.below slot o hold
      rcases hb.cases ho' with hold' | ⟨-, hnew'⟩
      · exact hn.unique slot slot' o o' hold hold' hserial
      · omega
    · rcases hb.cases ho' with hold' | ⟨hr', -⟩
      · have hbelow := hn.below slot' o' hold'
        omega
      · rw [hr] at hr'
        cases hr'
        rfl
  below slot o ho := by
    have hnext := hb.nextSerial
    rcases hb.cases ho with hold | ⟨-, hnew⟩
    · have hbelow := hn.below slot o hold
      omega
    · omega

theorem Bears.number_eq (hb : h.Bears h' id p) {id' : ObjectId} (hid : h.Resolves id') :
    h'.number id' = h.number id' := by
  obtain ⟨slot, o, hr⟩ := hid
  rw [number_of_resolve hr, number_of_resolve (hb.resolve _ _ _ hr)]

/-- A birth adds one object to the store. -/
theorem Bears.store_eq (hb : h.Bears h' id p) (hw : h.Wf) (hn : h.Numbered)
    (hvalid : ∀ value ∈ p.allFields, h.Valid value) :
    h'.store = h.store.allocated h.nextSerial (h.numberPayload p) := by
  have hn' := hb.numbered hn
  have hnumber := fun id' (hid : h.Resolves id') => hb.number_eq hid
  refine store_ext (fun k q => ?_) ?_ ?_ (fun _ => interned_congr hnumber hw.toSound hb.internTable)
    hb.nextSerial
  · show _ ↔ (if k = h.nextSerial then some (h.numberPayload p) else h.store.objects k) = some q
    rw [store_objects hn']
    constructor
    · rintro ⟨slot, o, ho, rfl, rfl⟩
      split
      · next hborn =>
        obtain ⟨base, new, hr, hnew, hp⟩ := hb.object
        obtain rfl := hn'.unique slot base o new ho (objectAt_of_resolve hr) (hborn.trans hnew.symm)
        rw [objectAt_of_resolve hr] at ho
        cases ho
        rw [hp, numberPayload_congr hnumber hvalid]
      · next hold =>
        have hbefore := (hb.cases ho).resolve_right fun hnew => hold hnew.2
        rw [store_objects_of_objectAt hn hbefore, numberPayload_congr hnumber (hw.fields slot o hbefore)]
    · intro hq
      split at hq
      · next hk =>
        obtain ⟨base, new, hr, hnew, hp⟩ := hb.object
        refine ⟨base, new, objectAt_of_resolve hr, hnew.trans hk.symm, ?_⟩
        rw [hp, numberPayload_congr hnumber hvalid]
        exact (Option.some.inj hq).symm
      · obtain ⟨slot, o, ho, hserial, rfl⟩ := (store_objects hn).mp hq
        refine ⟨slot, o, hb.objectAt hw ho, hserial, ?_⟩
        rw [numberPayload_congr hnumber (hw.fields slot o ho)]
  · show h'.rootCells.map h'.numberValue = h.rootCells.map h.numberValue
    rw [hb.rootCells, map_numberValue_congr hnumber hw.cells]
  · show h'.handleRoots.map h'.numberRoot = h.handleRoots.map h.numberRoot
    rw [hb.handleRoots, map_numberRoot_congr hnumber hw.handles]

/-- A store keeps the identifiers. -/
theorem Stored.resolve (hs : h.Stored h' slot o d) (ho : h.objectAt slot = some o) {id : ObjectId}
    {slot₁ : ℕ} {o₁ : Object} (hr : h.resolve id = .ok (slot₁, o₁)) :
    ∃ o', h'.resolve id = .ok (slot₁, o') ∧ o'.serial = o₁.serial ∧
      (slot₁ ≠ slot → o' = o₁) := by
  obtain ⟨-, h₁, hb, hp⟩ := hs
  have ho₁ := (hb.objectAt slot).trans ho
  have hu := hp.updates (R := fun o₁ o₂ => o₂ = o₁ ∨ o₂ = o.withPayload d ∧ o₁ = o) ho₁
    (fun _ => .inl rfl) (.inr ⟨rfl, rfl⟩)
  obtain ⟨o', hr', hrel⟩ := hu.resolve (hb.resolve_iff.mpr hr)
  refine ⟨o', hr', ?_, fun hne => ?_⟩
  · rcases hrel with rfl | ⟨rfl, rfl⟩ <;> rfl
  · have hsame := hp.objectAt_of_ne ho₁ hne.symm
    rw [objectAt_of_resolve hr', hb.objectAt, objectAt_of_resolve hr] at hsame
    exact Option.some.inj hsame

theorem Stored.objectAt (hs : h.Stored h' slot o d) (ho : h.objectAt slot = some o) (slot' : ℕ) :
    h'.objectAt slot' = if slot = slot' then some (o.withPayload d) else h.objectAt slot' := by
  obtain ⟨-, h₁, hb, hp⟩ := hs
  rw [hp.objectAt ((hb.objectAt slot).trans ho), hb.objectAt]

theorem Stored.numbered (hs : h.Stored h' slot o d) (ho : h.objectAt slot = some o)
    (hn : h.Numbered) : h'.Numbered := by
  have hbefore : ∀ slot' o', h'.objectAt slot' = some o' →
      ∃ o₁, h.objectAt slot' = some o₁ ∧ o₁.serial = o'.serial := by
    intro slot' o' ho'
    rw [hs.objectAt ho] at ho'
    split at ho'
    · next heq =>
      cases ho'
      exact ⟨o, heq ▸ ho, rfl⟩
    · exact ⟨o', ho', rfl⟩
  have hnext : h'.nextSerial = h.nextSerial := by
    obtain ⟨-, h₁, hb, hp⟩ := hs
    rw [hp.nextSerial, hb.rest]
  constructor
  · intro slot₁ slot₂ o₁ o₂ ho₁ ho₂ hserial
    obtain ⟨o₁', ho₁', hs₁⟩ := hbefore slot₁ o₁ ho₁
    obtain ⟨o₂', ho₂', hs₂⟩ := hbefore slot₂ o₂ ho₂
    exact hn.unique slot₁ slot₂ o₁' o₂' ho₁' ho₂' (by omega)
  · intro slot₁ o₁ ho₁
    obtain ⟨o₁', ho₁', hs₁⟩ := hbefore slot₁ o₁ ho₁
    have hbelow := hn.below slot₁ o₁' ho₁'
    omega

theorem Stored.number_eq (hs : h.Stored h' slot o d) (ho : h.objectAt slot = some o)
    {id : ObjectId} (hid : h.Resolves id) : h'.number id = h.number id := by
  obtain ⟨slot₁, o₁, hr⟩ := hid
  obtain ⟨o', hr', hserial, -⟩ := hs.resolve ho hr
  rw [number_of_resolve hr, number_of_resolve hr', hserial]

/-- A field store replaces one payload of the store. -/
theorem Stored.store_eq (hs : h.Stored h' slot o d) (ho : h.objectAt slot = some o) (hw : h.Wf)
    (hn : h.Numbered) (hvalid : ∀ value ∈ d.val.allFields, h.Valid value) :
    h'.store = h.store.updated o.serial (h.numberPayload d.val) := by
  have hn' := hs.numbered ho hn
  have hnumber := fun id (hid : h.Resolves id) => hs.number_eq ho hid
  refine store_ext (fun k q => ?_) ?_ ?_ (fun _ => interned_congr hnumber hw.toSound ?_) ?_
  · show _ ↔ (if k = o.serial then some (h.numberPayload d.val) else h.store.objects k) = some q
    rw [store_objects hn']
    constructor
    · rintro ⟨slot', o', ho', rfl, rfl⟩
      rw [hs.objectAt ho] at ho'
      split at ho'
      · cases ho'
        rw [if_pos (show (o.withPayload d).serial = o.serial from rfl)]
        exact congrArg some (numberPayload_congr hnumber hvalid).symm
      · next hne =>
        rw [if_neg fun heq => hne (hn.unique slot slot' o o' ho ho' heq.symm),
          store_objects_of_objectAt hn ho', numberPayload_congr hnumber (hw.fields slot' o' ho')]
    · intro hq
      split at hq
      · next hk =>
        refine ⟨slot, o.withPayload d, by rw [hs.objectAt ho, if_pos rfl], hk.symm, ?_⟩
        show q = h'.numberPayload d.val
        rw [numberPayload_congr hnumber hvalid]
        exact (Option.some.inj hq).symm
      · next hk =>
        obtain ⟨slot', o', ho', hserial, rfl⟩ := (store_objects hn).mp hq
        have hne : slot ≠ slot' := by
          rintro rfl
          rw [ho] at ho'
          cases ho'
          exact hk hserial.symm
        refine ⟨slot', o', by rw [hs.objectAt ho, if_neg hne, ho'], hserial, ?_⟩
        rw [numberPayload_congr hnumber (hw.fields slot' o' ho')]
  · obtain ⟨-, h₁, hb, hp⟩ := id hs
    have hroots : h'.rootCells = h.rootCells := by rw [hp.rootCells, hb.rest]
    show h'.rootCells.map h'.numberValue = h.rootCells.map h.numberValue
    rw [hroots, map_numberValue_congr hnumber hw.cells]
  · obtain ⟨-, h₁, hb, hp⟩ := id hs
    have hhandles : h'.handleRoots = h.handleRoots := by rw [hp.handleRoots, hb.rest]
    show h'.handleRoots.map h'.numberRoot = h.handleRoots.map h.numberRoot
    rw [hhandles, map_numberRoot_congr hnumber hw.handles]
  · obtain ⟨-, h₁, hb, hp⟩ := hs
    rw [hp.internTable, hb.rest]
  · obtain ⟨-, h₁, hb, hp⟩ := hs
    show h'.nextSerial = h.nextSerial
    rw [hp.nextSerial, hb.rest]

end Effects

end Heap

end LanguageRuntime.Gc
