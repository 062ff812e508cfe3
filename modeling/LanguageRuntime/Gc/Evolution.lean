import LanguageRuntime.Gc.CompositionTheorems

/-!
# How a heap evolves

The objects of a heap move, the dead ones leave and weak targets are cleared.
Two heaps are related here by what becomes of each object: its slot, its fields under the new
identifiers, and its entry in the intern table. The relation composes.
-/

namespace LanguageRuntime.Gc

open LanguageRuntime LanguageRuntime.Library

namespace Heap

/-- `value'` is in `h'` what `value` is in `h`, if `φ` gives the slot every object has moved to. -/
inductive Follows (h h' : Heap) (φ : ℕ → Option ℕ) : Value → Value → Prop
  | object {id id' : ObjectId} {slot slot' : ℕ} {o o' : Object}
    (hr : h.resolve id = .ok (slot, o)) (hφ : φ slot = some slot')
    (hr' : h'.resolve id' = .ok (slot', o')) : Follows h h' φ (.object id) (.object id')
  | scalar {value : Value} (hv : value.isObject = false) : Follows h h' φ value value

/-- The objects of `h` have moved to `h'` as `φ` says, and `F` renames identifiers accordingly. -/
structure EvolvesBy (h h' : Heap) (φ : ℕ → Option ℕ) (F : ObjectId → Option ObjectId) : Prop where
  renames : ∀ id slot o, h.resolve id = .ok (slot, o) → (F id).isSome = (φ slot).isSome ∧
    ∀ id', F id = some id' → h.Follows h' φ (.object id) (.object id')
  moved : ∀ slot o slot', h.objectAt slot = some o → φ slot = some slot' →
    ∃ o', h'.objectAt slot' = some o' ∧ o'.serial = o.serial ∧ o'.payload = o.payload.forward F
  closed : ∀ slot o, h.objectAt slot = some o → (φ slot).isSome = true → o.payload.Forwards F
  origin : ∀ slot' o', h'.objectAt slot' = some o' →
    ∃ slot o, h.objectAt slot = some o ∧ φ slot = some slot'
  interned : ∀ entry ∈ h.internTable, ∀ slot o, h.resolve entry.canonical = .ok (slot, o) →
    (φ slot).isSome = true → ∃ entry' ∈ h'.internTable,
      h.Follows h' φ (.object entry.canonical) (.object entry'.canonical)
  canonical : ∀ entry' ∈ h'.internTable, ∃ entry ∈ h.internTable,
    h.Follows h' φ (.object entry.canonical) (.object entry'.canonical)
  nextSerial : h.nextSerial ≤ h'.nextSerial

/-- A handle holds what it has held. -/
def FollowsRoot (h h' : Heap) (φ : ℕ → Option ℕ) (root root' : HandleRoot) : Prop :=
  root'.key = root.key ∧ h.Follows h' φ root.slot root'.slot

/-- `h'` is a later state of `h`: no object is new and each that is left is the same, and the root
cells, the handles and the caller's cells have followed. -/
def Evolves (h h' : Heap) (cells cells' : List Value) : Prop :=
  ∃ φ F, h.EvolvesBy h' φ F ∧ List.Forall₂ (h.Follows h' φ) cells cells' ∧
    List.Forall₂ (h.Follows h' φ) h.rootCells h'.rootCells ∧
      List.Forall₂ (h.FollowsRoot h' φ) h.handleRoots h'.handleRoots

section Follows

variable {h h₁ h₂ : Heap} {φ ψ : ℕ → Option ℕ} {value value₁ value₂ : Value}

theorem Follows.valid (hf : h.Follows h₁ φ value value₁) : h.Valid value ∧ h₁.Valid value₁ := by
  cases hf with
  | object hr hφ hr' => exact ⟨valid_object.mpr ⟨_, _, hr⟩, valid_object.mpr ⟨_, _, hr'⟩⟩
  | scalar hv => exact ⟨valid_of_not_isObject hv, valid_of_not_isObject hv⟩

theorem Follows.trans (hf : h.Follows h₁ φ value value₁) (hg : h₁.Follows h₂ ψ value₁ value₂) :
    h.Follows h₂ (fun slot => (φ slot).bind ψ) value value₂ := by
  cases hf with
  | object hr hφ hr' =>
    cases hg with
    | object hr₁ hψ hr₁' =>
      rw [hr'] at hr₁
      cases hr₁
      exact .object hr (by rw [hφ, Option.bind_some, hψ]) hr₁'
    | scalar hv => exact nomatch hv
  | scalar hv =>
    cases hg with
    | object => exact nomatch hv
    | scalar => exact .scalar hv

theorem follows_refl (hv : h.Valid value) : h.Follows h some value value := by
  cases value with
  | object id =>
    obtain ⟨slot, o, hr⟩ := valid_object.mp hv
    exact .object hr rfl hr
  | _ => exact .scalar rfl

/-- An object that has followed stands where its object has moved to. -/
theorem Follows.resolve {id id' : ObjectId} {slot : ℕ} {o : Object}
    (hf : h.Follows h₁ φ (.object id) (.object id')) (hr : h.resolve id = .ok (slot, o)) :
    ∃ slot' o', φ slot = some slot' ∧ h₁.resolve id' = .ok (slot', o') := by
  cases hf with
  | object hr₁ hφ hr' =>
    rw [hr] at hr₁
    cases hr₁
    exact ⟨_, _, hφ, hr'⟩
  | scalar hv => exact nomatch hv

theorem Follows.moves {id : ObjectId} {slot : ℕ} {o : Object}
    (hf : h.Follows h₁ φ (.object id) value₁) (hr : h.resolve id = .ok (slot, o)) :
    ∃ slot', φ slot = some slot' := by
  cases hf with
  | object hr₁ hφ =>
    rw [hr] at hr₁
    cases hr₁
    exact ⟨_, hφ⟩
  | scalar hv => exact nomatch hv

end Follows

section Evolves

variable {h h₁ h₂ : Heap} {φ ψ : ℕ → Option ℕ} {F G : ObjectId → Option ObjectId}
  {cells cells₁ cells₂ : List Value}

/-- The same object, under the identifier it has now. -/
theorem EvolvesBy.named (he : h.EvolvesBy h₁ φ F) {id : ObjectId} {value : Value}
    (hf : h.Follows h₁ φ (.object id) value) {slot : ℕ} {o : Object}
    (hr : h.resolve id = .ok (slot, o)) :
    ∃ id' slot' o', value = .object id' ∧ h₁.resolve id' = .ok (slot', o') ∧
      o'.serial = o.serial ∧ o'.payload = o.payload.forward F := by
  cases hf with
  | object hr₀ hφ hr' =>
    rw [hr] at hr₀
    cases hr₀
    obtain ⟨o', ho', hserial, hp⟩ := he.moved slot o _ (objectAt_of_resolve hr) hφ
    rw [objectAt_of_resolve hr'] at ho'
    cases ho'
    exact ⟨_, _, _, rfl, hr', hserial, hp⟩
  | scalar hv => exact nomatch hv

theorem EvolvesBy.trans (he : h.EvolvesBy h₁ φ F) (hg : h₁.EvolvesBy h₂ ψ G) :
    h.EvolvesBy h₂ (fun slot => (φ slot).bind ψ) (fun id => (F id).bind G) where
  renames id slot o hr := by
    obtain ⟨hsome, hfollows⟩ := he.renames id slot o hr
    cases hid : F id with
    | none =>
      rw [hid] at hsome
      have hnone : φ slot = none := by rwa [Eq.comm, Option.isSome_none, Option.isSome_eq_false_iff,
        Option.isNone_iff_eq_none] at hsome
      rw [hnone]
      exact ⟨rfl, fun id' hid' => nomatch hid'⟩
    | some id₁ =>
      have hf := hfollows id₁ hid
      obtain ⟨slot₁, o₁, hslot₁, hr₁⟩ := hf.resolve hr
      obtain ⟨hsome₁, hfollows₁⟩ := hg.renames id₁ slot₁ o₁ hr₁
      rw [hslot₁, Option.bind_some, Option.bind_some]
      exact ⟨hsome₁, fun id₂ hid₂ => hf.trans (hfollows₁ id₂ hid₂)⟩
  moved slot o slot₂ ho hslot₂ := by
    obtain ⟨slot₁, hslot₁, hψ⟩ := Option.bind_eq_some_iff.mp hslot₂
    obtain ⟨o₁, ho₁, hserial₁, hp₁⟩ := he.moved slot o slot₁ ho hslot₁
    obtain ⟨o₂, ho₂, hserial₂, hp₂⟩ := hg.moved slot₁ o₁ slot₂ ho₁ hψ
    refine ⟨o₂, ho₂, hserial₂.trans hserial₁, ?_⟩
    have hF := he.closed slot o ho (by rw [hslot₁]; rfl)
    have hG := hg.closed slot₁ o₁ ho₁ (by rw [hψ]; rfl)
    rw [hp₁] at hG
    rw [hp₂, hp₁, Payload.forward_bind hF hG]
  closed slot o ho hsome := by
    obtain ⟨slot₂, hslot₂⟩ := Option.isSome_iff_exists.mp hsome
    obtain ⟨slot₁, hslot₁, hψ⟩ := Option.bind_eq_some_iff.mp hslot₂
    obtain ⟨o₁, ho₁, -, hp₁⟩ := he.moved slot o slot₁ ho hslot₁
    have hG := hg.closed slot₁ o₁ ho₁ (by rw [hψ]; rfl)
    rw [hp₁] at hG
    exact (he.closed slot o ho (by rw [hslot₁]; rfl)).bind hG
  origin slot₂ o₂ ho₂ := by
    obtain ⟨slot₁, o₁, ho₁, hψ⟩ := hg.origin slot₂ o₂ ho₂
    obtain ⟨slot, o, ho, hφ⟩ := he.origin slot₁ o₁ ho₁
    exact ⟨slot, o, ho, by rw [hφ, Option.bind_some, hψ]⟩
  interned entry hentry slot o hr hsome := by
    obtain ⟨slot₂, hslot₂⟩ := Option.isSome_iff_exists.mp hsome
    obtain ⟨slot₁, hslot₁, hψ⟩ := Option.bind_eq_some_iff.mp hslot₂
    obtain ⟨entry₁, hentry₁, hf⟩ := he.interned entry hentry slot o hr (by rw [hslot₁]; rfl)
    obtain ⟨slot₁', o₁, hslot₁', hr₁⟩ := hf.resolve hr
    rw [hslot₁] at hslot₁'
    cases hslot₁'
    obtain ⟨entry₂, hentry₂, hf₂⟩ := hg.interned entry₁ hentry₁ slot₁ o₁ hr₁ (by rw [hψ]; rfl)
    exact ⟨entry₂, hentry₂, hf.trans hf₂⟩
  canonical entry₂ hentry₂ := by
    obtain ⟨entry₁, hentry₁, hf₁⟩ := hg.canonical entry₂ hentry₂
    obtain ⟨entry, hentry, hf⟩ := he.canonical entry₁ hentry₁
    exact ⟨entry, hentry, hf.trans hf₁⟩
  nextSerial := he.nextSerial.trans hg.nextSerial

theorem Evolves.trans (he : h.Evolves h₁ cells cells₁) (hg : h₁.Evolves h₂ cells₁ cells₂) :
    h.Evolves h₂ cells cells₂ := by
  obtain ⟨φ, F, hF, hcells, hroots, hhandles⟩ := he
  obtain ⟨ψ, G, hG, hcells₁, hroots₁, hhandles₁⟩ := hg
  refine ⟨_, _, hF.trans hG, ?_, ?_, ?_⟩
  · exact forall₂_trans (fun _ _ _ hf hg => hf.trans hg) hcells hcells₁
  · exact forall₂_trans (fun _ _ _ hf hg => hf.trans hg) hroots hroots₁
  · exact forall₂_trans (fun _ _ _ hf hg => ⟨hg.1.trans hf.1, hf.2.trans hg.2⟩) hhandles hhandles₁

/-- The cells may be forgotten. -/
theorem Evolves.alone (he : h.Evolves h₁ cells cells₁) : h.Evolves h₁ [] [] := by
  obtain ⟨φ, F, hF, -, hroots⟩ := he
  exact ⟨φ, F, hF, .nil, hroots⟩

/-- The first cell. -/
theorem Evolves.head {value value' : Value} {rest rest' : List Value}
    (he : h.Evolves h₁ (value :: rest) (value' :: rest')) : h.Evolves h₁ [value] [value'] := by
  obtain ⟨φ, F, hF, hcells, hroots⟩ := he
  cases hcells with
  | cons hfirst _ => exact ⟨φ, F, hF, .cons hfirst .nil, hroots⟩

theorem Evolves.valid (he : h.Evolves h₁ cells cells₁) : ∀ value ∈ cells₁, h₁.Valid value := by
  obtain ⟨φ, F, -, hcells, -⟩ := he
  intro value hvalue
  obtain ⟨value₀, -, hf⟩ := forall₂_right hcells value hvalue
  exact hf.valid.2

theorem Evolves.length_eq (he : h.Evolves h₁ cells cells₁) : cells₁.length = cells.length := by
  obtain ⟨φ, F, -, hcells, -⟩ := he
  exact hcells.length_eq.symm

/-- A cell that names an object names one afterwards. -/
theorem Evolves.singleton {id : ObjectId} (he : h.Evolves h₁ [.object id] cells₁) :
    ∃ id', cells₁ = [.object id'] := by
  obtain ⟨φ, F, -, hcells, -⟩ := he
  cases hcells with
  | cons hf hnil =>
    cases hnil
    cases hf with
    | object => exact ⟨_, rfl⟩
    | scalar hv => exact nomatch hv

end Evolves

/-! ## Steps that keep every object in its slot -/

theorem Sound.resolves_interned {h : Heap} (hs : h.Sound) {entry : InternEntry}
    (hentry : entry ∈ h.internTable) : h.Resolves entry.canonical := by
  obtain ⟨bytes, ⟨o, ho, -⟩, -⟩ := hs.interns.hashed entry hentry
  exact ⟨_, o, resolve_of_lookup ho⟩

section InPlace

variable {h h' : Heap} {R : Object → Object → Prop} {cells : List Value}

theorem follows_of_resolve
    (hresolve : ∀ id slot o, h.resolve id = .ok (slot, o) → ∃ o', h'.resolve id = .ok (slot, o'))
    {value : Value} (hv : h.Valid value) : h.Follows h' some value value := by
  cases value with
  | object id =>
    obtain ⟨slot, o, hr⟩ := valid_object.mp hv
    obtain ⟨o', hr'⟩ := hresolve id slot o hr
    exact .object hr rfl hr'
  | _ => exact .scalar rfl

theorem follows_inPlace
    (hresolve : ∀ id slot o, h.resolve id = .ok (slot, o) → ∃ o', h'.resolve id = .ok (slot, o'))
    (hcells : ∀ value ∈ cells, h.Valid value) : List.Forall₂ (h.Follows h' some) cells cells :=
  List.forall₂_same.mpr fun value hvalue => follows_of_resolve hresolve (hcells value hvalue)

/-- Nothing moves, and no object gets another payload. -/
theorem evolves_inPlace
    (hresolve : ∀ id slot o, h.resolve id = .ok (slot, o) → ∃ o', h'.resolve id = .ok (slot, o'))
    (hmoved : ∀ slot o, h.objectAt slot = some o →
      ∃ o', h'.objectAt slot = some o' ∧ o'.serial = o.serial ∧ o'.payload = o.payload)
    (horigin : ∀ slot o', h'.objectAt slot = some o' → ∃ o, h.objectAt slot = some o)
    (htable : h'.internTable = h.internTable) (hnext : h.nextSerial ≤ h'.nextSerial)
    (hroots : h'.rootCells = h.rootCells) (hhandles : h'.handleRoots = h.handleRoots) (hs : h.Sound)
    (hcells : ∀ value ∈ cells, h.Valid value) : h.Evolves h' cells cells := by
  have hheld : List.Forall₂ (h.FollowsRoot h' some) h.handleRoots h.handleRoots :=
    List.forall₂_same.mpr fun root hroot => ⟨rfl, follows_of_resolve hresolve (hs.handles root hroot)⟩
  refine ⟨some, some, ?_, follows_inPlace hresolve hcells,
    hroots.symm ▸ follows_inPlace hresolve hs.cells, hhandles.symm ▸ hheld⟩
  constructor
  · intro id slot o hr
    obtain ⟨o', hr'⟩ := hresolve id slot o hr
    exact ⟨rfl, fun id' hid' => Option.some.inj hid' ▸ .object hr rfl hr'⟩
  · intro slot o slot' ho hslot
    obtain ⟨o', ho', hserial, hp⟩ := hmoved slot o ho
    rw [Option.some.inj hslot] at ho'
    exact ⟨o', ho', hserial, hp.trans (Payload.forward_some _).symm⟩
  · exact fun _ _ _ _ => ⟨fun _ _ => rfl, fun _ _ _ _ => rfl⟩
  · intro slot' o' ho'
    obtain ⟨o, ho⟩ := horigin slot' o' ho'
    exact ⟨slot', o, ho, rfl⟩
  · intro entry hentry slot o hr _
    obtain ⟨o', hr'⟩ := hresolve _ _ _ hr
    exact ⟨entry, htable ▸ hentry, .object hr rfl hr'⟩
  · intro entry hentry
    rw [htable] at hentry
    obtain ⟨slot, o, hr⟩ := hs.resolves_interned hentry
    obtain ⟨o', hr'⟩ := hresolve _ _ _ hr
    exact ⟨entry, hentry, .object hr rfl hr'⟩
  · exact hnext

theorem Updates.evolves (hu : Updates R h h')
    (hR : ∀ slot o o', h.objectAt slot = some o → R o o' → o'.serial = o.serial ∧
      o'.payload = o.payload)
    (htable : h'.internTable = h.internTable) (hnext : h.nextSerial ≤ h'.nextSerial)
    (hroots : h'.rootCells = h.rootCells) (hhandles : h'.handleRoots = h.handleRoots) (hs : h.Sound)
    (hcells : ∀ value ∈ cells, h.Valid value) : h.Evolves h' cells cells := by
  refine evolves_inPlace (fun id slot o hr => ?_) (fun slot o ho => ?_) (fun slot o' ho' => ?_)
    htable hnext hroots hhandles hs hcells
  · obtain ⟨o', hr', -⟩ := hu.resolve hr
    exact ⟨o', hr'⟩
  · obtain ⟨o', ho', hrel⟩ := hu.objectAt ho
    exact ⟨o', ho', hR slot o o' ho hrel⟩
  · obtain ⟨o, ho, -⟩ := hu.objectAt_symm ho'
    exact ⟨o, ho⟩

end InPlace

end Heap

end LanguageRuntime.Gc
