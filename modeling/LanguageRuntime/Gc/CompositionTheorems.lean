import LanguageRuntime.Gc.TriColourTheorems

/-!
# Movements one after the other

Two relocations in a row are one relocation, whose forwarding is the composition of theirs.
-/

namespace LanguageRuntime.Gc

open LanguageRuntime LanguageRuntime.Library

/-! ## Payloads -/

namespace Payload

section Compose

variable {F G : ObjectId → Option ObjectId} {p : Payload}

/-- A payload that only has strong fields is renamed by a total function. -/
theorem forward_strong (hweak : p.weakFields = []) (hF : p.Forwards F) :
    p.forward F = p.forward fun id => some ((F id).getD id) := by
  refine forward_congr fun id hid => ?_
  rw [allFields, hweak, List.append_nil] at hid
  obtain ⟨id', hid'⟩ := Option.isSome_iff_exists.mp (hF.1 id hid)
  rw [hid', Option.getD_some]

theorem weakFields_forward_strong (hweak : p.weakFields = []) : (p.forward F).weakFields = [] := by
  cases p with
  | weakRef target => exact nomatch hweak
  | ephemeron key value valueIsRef => exact nomatch hweak
  | _ => rfl

/-- Forwarding twice is forwarding once, when neither movement drops what the payload needs. -/
theorem forward_bind (hF : p.Forwards F) (hG : (p.forward F).Forwards G) :
    (p.forward F).forward G = p.forward fun id => (F id).bind G := by
  by_cases hweak : p.weakFields = []
  · rw [forward_strong (weakFields_forward_strong hweak) hG, forward_strong hweak hF,
      forward_forward]
    refine forward_congr fun id hid => ?_
    rw [allFields, hweak, List.append_nil] at hid
    obtain ⟨id', hid'⟩ := Option.isSome_iff_exists.mp (hF.1 id hid)
    have hmem : .object id' ∈ (p.forward F).referenceFields := by
      rw [referenceFields_forward, List.mem_map]
      exact ⟨.object id, hid, by rw [Value.mapObject_object, hid', Option.getD_some]⟩
    obtain ⟨id'', hid''⟩ := Option.isSome_iff_exists.mp (hG.1 id' hmem)
    rw [hid', Option.getD_some, Option.bind_some, hid'', Option.getD_some]
  · cases p with
    | weakRef target =>
      cases target with
      | object id =>
        cases hid : F id <;>
          simp [forward, mapReferenceFields, forwardWeakTarget, forwardEphemeron, hid]
      | _ => rfl
    | ephemeron key value valueIsRef =>
      cases key with
      | object key =>
        cases hkey : F key with
        | none => simp [forward, mapReferenceFields, forwardWeakTarget, forwardEphemeron, hkey]
        | some key' =>
          cases hkey' : G key' with
          | none =>
            simp [forward, mapReferenceFields, forwardWeakTarget, forwardEphemeron, hkey, hkey']
          | some key'' =>
            -- a key that is kept twice keeps the value twice
            cases value with
            | object id =>
              cases valueIsRef with
              | false =>
                simp [forward, mapReferenceFields, forwardWeakTarget, forwardEphemeron, hkey,
                  hkey']
              | true =>
                have hsome := hF.2 key id rfl (by rw [hkey]; rfl)
                obtain ⟨id', hid'⟩ := Option.isSome_iff_exists.mp hsome
                have hforward : (ephemeron (.object key) (.object id) true).forward F =
                    ephemeron (.object key') (.object id') true := by
                  simp [forward, mapReferenceFields, forwardWeakTarget, forwardEphemeron, hkey,
                    hid']
                have hsome' := hG.2 key' id' hforward (by rw [hkey']; rfl)
                obtain ⟨id'', hid''⟩ := Option.isSome_iff_exists.mp hsome'
                simp [forward, mapReferenceFields, forwardWeakTarget, forwardEphemeron, hkey,
                  hkey', hid', hid'']
            | _ =>
              simp [forward, mapReferenceFields, forwardWeakTarget, forwardEphemeron, hkey, hkey']
      | _ => rfl
    | _ => exact absurd rfl hweak

/-- What is forwarded twice is forwarded by the composition. -/
theorem Forwards.bind (hF : p.Forwards F) (hG : (p.forward F).Forwards G) :
    p.Forwards fun id => (F id).bind G := by
  refine ⟨fun id hid => ?_, ?_⟩
  · obtain ⟨id', hid'⟩ := Option.isSome_iff_exists.mp (hF.1 id hid)
    have hmem : .object id' ∈ (p.forward F).referenceFields := by
      rw [referenceFields_forward, List.mem_map]
      exact ⟨.object id, hid, by rw [Value.mapObject_object, hid', Option.getD_some]⟩
    show ((F id).bind G).isSome = true
    rw [hid', Option.bind_some]
    exact hG.1 id' hmem
  · rintro key value rfl hkey
    obtain ⟨key'', hkey''⟩ := Option.isSome_iff_exists.mp hkey
    obtain ⟨key', hkey', hG'⟩ := Option.bind_eq_some_iff.mp hkey''
    obtain ⟨value', hvalue'⟩ := Option.isSome_iff_exists.mp (hF.2 key value rfl (by rw [hkey']; rfl))
    have hforward : (ephemeron (.object key) (.object value) true).forward F =
        ephemeron (.object key') (.object value') true := by
      simp [forward, mapReferenceFields, forwardWeakTarget, forwardEphemeron, hkey', hvalue']
    show ((F value).bind G).isSome = true
    rw [hvalue', Option.bind_some]
    exact hG.2 key' value' hforward (by rw [hG']; rfl)

end Compose

end Payload

/-! ## Heaps -/

namespace Heap

/-- Where a slot is after two movements. -/
def composeIds (φ ψ : ℕ → Option ObjectId) (slot : ℕ) : Option ObjectId :=
  (φ slot).bind fun id => ψ id.slot

section Compose

variable {h h₁ h₂ : Heap} {φ ψ : ℕ → Option ObjectId}

theorem Relocates.forwardBy_composeIds (hr : h.Relocates h₁ φ) (id : ObjectId) :
    h.forwardBy (composeIds φ ψ) id = (h.forwardBy φ id).bind (h₁.forwardBy ψ) := by
  by_cases hres : h.Resolves id
  · obtain ⟨slot, o, hres⟩ := hres
    rw [forwardBy_of_resolve hres, forwardBy_of_resolve hres, composeIds]
    cases hid : φ slot with
    | none => rfl
    | some id₁ =>
      obtain ⟨o₁, ho₁, -⟩ := hr.target slot o id₁ (objectAt_of_resolve hres) hid
      rw [Option.bind_some, Option.bind_some, forwardBy_of_resolve (resolve_of_lookup ho₁)]
  · rw [forwardBy_of_not_resolves hres, forwardBy_of_not_resolves hres]
    rfl

theorem Relocates.trans (hr : h.Relocates h₁ φ) (hr' : h₁.Relocates h₂ ψ) :
    h.Relocates h₂ (composeIds φ ψ) where
  target slot o id₂ ho hid := by
    obtain ⟨id₁, hid₁, hid₂⟩ := Option.bind_eq_some_iff.mp hid
    obtain ⟨o₁, ho₁, hp₁⟩ := hr.target slot o id₁ ho hid₁
    obtain ⟨o₂, ho₂, hp₂⟩ := hr'.target id₁.slot o₁ id₂ (objectAt_of_lookup ho₁) hid₂
    refine ⟨o₂, ho₂, ?_⟩
    have hF := hr.closed slot o ho (by rw [hid₁]; rfl)
    have hG := hr'.closed id₁.slot o₁ (objectAt_of_lookup ho₁) (by rw [hid₂]; rfl)
    rw [hp₁] at hG
    rw [hp₂, hp₁, Payload.forward_bind hF hG]
    exact Payload.forward_congr fun id _ => (hr.forwardBy_composeIds id).symm
  origin slot₂ o₂ ho₂ := by
    obtain ⟨slot₁, o₁, id₂, ho₁, hid₂, hslot₂⟩ := hr'.origin slot₂ o₂ ho₂
    obtain ⟨slot, o, id₁, ho, hid₁, rfl⟩ := hr.origin slot₁ o₁ ho₁
    exact ⟨slot, o, id₂, ho, by rw [composeIds, hid₁, Option.bind_some, hid₂], hslot₂⟩
  ordered slot slot' o o' id₂ id₂' ho ho' hid hid' hlisted hlisted' hlt := by
    obtain ⟨id₁, hid₁, hid₂⟩ := Option.bind_eq_some_iff.mp hid
    obtain ⟨id₁', hid₁', hid₂'⟩ := Option.bind_eq_some_iff.mp hid'
    obtain ⟨o₁, ho₁, hp₁⟩ := hr.target slot o id₁ ho hid₁
    obtain ⟨o₁', ho₁', hp₁'⟩ := hr.target slot' o' id₁' ho' hid₁'
    have hlt₁ := hr.ordered slot slot' o o' id₁ id₁' ho ho' hid₁ hid₁' hlisted hlisted' hlt
    refine hr'.ordered id₁.slot id₁'.slot o₁ o₁' id₂ id₂' (objectAt_of_lookup ho₁)
      (objectAt_of_lookup ho₁') hid₂ hid₂' ?_ ?_ hlt₁
    · rw [hp₁, Payload.kind_forward, hlisted]
    · rw [hp₁', Payload.kind_forward, hlisted']
  closed slot o ho hsome := by
    obtain ⟨id₂, hid⟩ := Option.isSome_iff_exists.mp hsome
    obtain ⟨id₁, hid₁, hid₂⟩ := Option.bind_eq_some_iff.mp hid
    obtain ⟨o₁, ho₁, hp₁⟩ := hr.target slot o id₁ ho hid₁
    have hF := hr.closed slot o ho (by rw [hid₁]; rfl)
    have hG := hr'.closed id₁.slot o₁ (objectAt_of_lookup ho₁) (by rw [hid₂]; rfl)
    rw [hp₁] at hG
    have hboth := hF.bind hG
    have hcompose : h.forwardBy (composeIds φ ψ) =
        fun id => (h.forwardBy φ id).bind (h₁.forwardBy ψ) :=
      funext fun id => hr.forwardBy_composeIds id
    rwa [hcompose]

/-- A root that both movements keep. -/
theorem Relocates.forwardRoot_composeIds (hr : h.Relocates h₁ φ) {value : Value}
    (hkept : ∀ id, value = .object id → (h.forwardBy φ id).isSome = true)
    (hkept' : ∀ id, h.forwardRoot φ value = .object id → (h₁.forwardBy ψ id).isSome = true) :
    h₁.forwardRoot ψ (h.forwardRoot φ value) = h.forwardRoot (composeIds φ ψ) value := by
  cases value with
  | object id =>
    obtain ⟨id₁, hid₁⟩ := Option.isSome_iff_exists.mp (hkept id rfl)
    have heq : h.forwardRoot φ (.object id) = .object id₁ := by
      rw [forwardRoot, Value.mapObject_object, hid₁, Option.getD_some]
    obtain ⟨id₂, hid₂⟩ := Option.isSome_iff_exists.mp (hkept' id₁ heq)
    rw [heq, forwardRoot, forwardRoot, Value.mapObject_object, Value.mapObject_object,
      hr.forwardBy_composeIds, hid₁, Option.bind_some, hid₂, Option.getD_some, Option.getD_some]
  | _ => rfl

/-- The movement keeps the roots given. -/
def KeepsRoots (h : Heap) (φ : ℕ → Option ObjectId) (roots : List Value) : Prop :=
  ∀ value ∈ roots, ∀ id, value = .object id → (h.forwardBy φ id).isSome = true

theorem Renames.trans (hr : h.Renames h₁ φ) (hr' : h₁.Renames h₂ ψ)
    (hkept : h.KeepsRoots φ (h.traceCollectionRoots []))
    (hkept' : h₁.KeepsRoots ψ (h₁.traceCollectionRoots [])) :
    h.Renames h₂ (composeIds φ ψ) where
  relocates := hr.relocates.trans hr'.relocates
  rootCells := by
    rw [hr'.rootCells, hr.rootCells, List.map_map]
    refine List.map_congr_left fun value hvalue => hr.relocates.forwardRoot_composeIds
      (hkept value (by simp [traceCollectionRoots, hvalue])) (hkept' _ ?_)
    have hmem : h.forwardRoot φ value ∈ h₁.rootCells := by
      rw [hr.rootCells]
      exact List.mem_map_of_mem hvalue
    simp [traceCollectionRoots, hmem]
  handleRoots := by
    rw [hr'.handleRoots, hr.handleRoots, List.map_map]
    refine List.map_congr_left fun root hroot => ?_
    have hmem : root.slot ∈ h.traceCollectionRoots [] := by
      simp only [traceCollectionRoots, List.mem_append, List.mem_map]
      exact .inl (.inr ⟨root, hroot, rfl⟩)
    have hmem' : h.forwardRoot φ root.slot ∈ h₁.traceCollectionRoots [] := by
      simp only [traceCollectionRoots, List.mem_append, List.mem_map, hr.handleRoots]
      exact .inl (.inr ⟨_, ⟨root, hroot, rfl⟩, rfl⟩)
    have hslot := hr.relocates.forwardRoot_composeIds (hkept _ hmem) (hkept' _ hmem')
    rw [Function.comp_apply, hslot]
  weakRefs := by
    rw [hr'.weakRefs, hr.weakRefs, List.filterMap_filterMap]
    exact List.filterMap_congr fun id _ => (hr.relocates.forwardBy_composeIds id).symm
  ephemerons := by
    rw [hr'.ephemerons, hr.ephemerons, List.filterMap_filterMap]
    exact List.filterMap_congr fun id _ => (hr.relocates.forwardBy_composeIds id).symm
  internTable := by
    rw [hr'.internTable, forwardInternTable, hr.internTable, forwardInternTable,
      List.filterMap_filterMap, forwardInternTable]
    refine List.filterMap_congr fun entry _ => ?_
    rw [hr.relocates.forwardBy_composeIds]
    cases h.forwardBy φ entry.canonical <;> rfl
  stressConfig := hr'.stressConfig.trans hr.stressConfig

end Compose

end Heap

end LanguageRuntime.Gc
