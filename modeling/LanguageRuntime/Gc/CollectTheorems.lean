import LanguageRuntime.Gc.RelocationTheorems
import LanguageRuntime.Gc.ValidateTheorems

/-!
# Installing a movement

The second half of a collection: compaction, the passes over the moved objects and the side
tables, and the installation of the result, which is a relocation of the marked objects.
-/

namespace LanguageRuntime.Gc

open LanguageRuntime LanguageRuntime.Library

/-! ## Roots -/

/-- The heap with every root rewritten. -/
def Heap.mapRoots (h : Heap) (g : Value → Value) : Heap :=
  { h with
    rootCells := h.rootCells.map g
    handleRoots := h.handleRoots.map fun root => { root with slot := g root.slot } }

theorem rewriteCells_eq {f : Value → Except HeapError Value} {g : Value → Value}
    {cells : List Value} (hf : ∀ value ∈ cells, f value = .ok (g value)) :
    rewriteCells f cells = (cells.map g, none) := by
  induction cells with
  | nil => rfl
  | cons value cells ih =>
    unfold rewriteCells
    simp only [hf value List.mem_cons_self, ih fun v hv => hf v (List.mem_cons_of_mem _ hv),
      List.map_cons]

/-- Rewriting the roots succeeds when every root can be rewritten. -/
theorem rewriteRoots_eq_ok {h : Heap} {f : Value → Except HeapError Value} {g : Value → Value}
    {extraRoots : List Value}
    (hf : ∀ value ∈ h.traceCollectionRoots extraRoots, f value = .ok (g value)) :
    rewriteRoots f extraRoots h = .ok (extraRoots.map g) (h.mapRoots g) := by
  have hcells : rewriteCells f h.rootCells = (h.rootCells.map g, none) :=
    rewriteCells_eq fun v hv => hf v (by simp [Heap.traceCollectionRoots, hv])
  have hhandles : rewriteCells f (h.handleRoots.map HandleRoot.slot) =
      ((h.handleRoots.map HandleRoot.slot).map g, none) :=
    rewriteCells_eq fun v hv => hf v (by
      simp only [Heap.traceCollectionRoots, List.mem_append]
      exact .inl (.inr hv))
  have hextra : rewriteCells f extraRoots = (extraRoots.map g, none) :=
    rewriteCells_eq fun v hv => hf v (by simp [Heap.traceCollectionRoots, hv])
  have hzip : h.handleRoots.zipWith (fun root slot => { root with slot := slot })
      ((h.handleRoots.map HandleRoot.slot).map g) =
        h.handleRoots.map fun root => { root with slot := g root.slot } := by
    induction h.handleRoots with
    | nil => rfl
    | cons root roots ih =>
      simp only [List.map_cons, List.zipWith_cons_cons, ih]
  unfold rewriteRoots
  show EStateM.bind _ _ h = _
  have hget : (get : HeapM Heap) h = .ok h h := rfl
  simp only [EStateM.bind, hget, hcells, hhandles, hextra]
  rw [Heap.mapRoots, ← hzip]
  rfl

namespace Heap

/-! ## The moved objects -/

/-- `moved` holds the objects that `forwarding` gives an identifier, at their new slots. -/
structure Moves (h : Heap) (forwarding : ForwardingTable) (moved : List (Option Object)) : Prop where
  target : ∀ slot o id', h.objectAt slot = some o → forwarding.getD slot none = some id' →
    ∃ o', moved.getD id'.slot none = some o' ∧ o'.payload = o.payload
  origin : ∀ slot' o', moved.getD slot' none = some o' → ∃ slot o id', h.objectAt slot = some o ∧
    forwarding.getD slot none = some id' ∧ id'.slot = slot' ∧ o'.payload = o.payload
  ordered : h.OrdersListed fun slot => forwarding.getD slot none
  closed : ∀ slot o, h.objectAt slot = some o → (forwarding.getD slot none).isSome = true →
    o.payload.Forwards (h.forwardId? forwarding)

section Moves

variable {h : Heap} {forwarding : ForwardingTable} {moved : List (Option Object)}

theorem forwardId?_of_lookup {id : ObjectId} {o : Object} (ho : h.lookup id = some o) :
    h.forwardId? forwarding id = forwarding.getD id.slot none := by
  rw [forwardId?_eq, forwardBy_of_resolve (resolve_of_lookup ho)]

/-- The moved object of a registry owner. -/
theorem Moves.owner (hm : h.Moves forwarding moved) {kind : ObjectKind} {registry : List ObjectId}
    (hreg : h.IsRegistry kind registry) {owner owner' : ObjectId} (hmem : owner ∈ registry)
    (hF : h.forwardId? forwarding owner = some owner') :
    ∃ o o', h.objectAt owner.slot = some o ∧ moved.getD owner'.slot none = some o' ∧
      o'.payload = o.payload ∧ o.payload.kind = kind := by
  obtain ⟨o, ho, hk⟩ := (hreg.mem owner).mp hmem
  rw [forwardId?_of_lookup ho] at hF
  obtain ⟨o', ho', hp⟩ := hm.target owner.slot o owner' (objectAt_of_lookup ho) hF
  exact ⟨o, o', objectAt_of_lookup ho, ho', hp, hk⟩

/-- A moved object of a registered kind is the image of a registry entry. -/
theorem Moves.registered (hm : h.Moves forwarding moved) (hs : h.Storage) {kind : ObjectKind}
    {registry : List ObjectId} (hreg : h.IsRegistry kind registry) {slot' : ℕ} {o' : Object}
    (ho' : moved.getD slot' none = some o') (hk : o'.payload.kind = kind) :
    slot' ∈ (registry.filterMap (h.forwardId? forwarding)).map ObjectId.slot := by
  obtain ⟨slot, o, id', ho, hφ, rfl, hp⟩ := hm.origin slot' o' ho'
  have hl := hs.lookup_currentId ho
  refine List.mem_map.mpr ⟨id', List.mem_filterMap.mpr ⟨h.currentId slot, ?_, ?_⟩, rfl⟩
  · exact (hreg.mem _).mpr ⟨o, hl, hp ▸ hk⟩
  · rw [forwardId?_of_lookup hl, hs.currentId_eq ho]
    exact hφ

/-- The three passes forward every field of the moved objects. -/
theorem Moves.passes (hm : h.Moves forwarding moved) (hs : h.Sound) :
    moved.mapM (h.rewriteObject forwarding) =
        .ok (moved.map (Option.map (Object.mapReferenceFields (h.forwardIdD forwarding)))) ∧
      ∃ moved', h.processWeakTargets forwarding
          (moved.map (Option.map (Object.mapReferenceFields (h.forwardIdD forwarding)))) =
            .ok (moved', h.weakRefs.filterMap (h.forwardId? forwarding)) ∧
        h.processEphemerons forwarding moved' =
          .ok (moved.map (Option.map (Object.forward (h.forwardId? forwarding))),
            h.ephemerons.filterMap (h.forwardId? forwarding)) := by
  have hweakOrdered : (h.weakRefs.filterMap (h.forwardId? forwarding)).Pairwise
      (·.slot < ·.slot) := by
    rw [forwardId?_eq]
    exact hm.ordered.pairwise_filterMap hs.weakRefs.ordered (hs.weakRefs.listed rfl)
  have hephemeronOrdered : (h.ephemerons.filterMap (h.forwardId? forwarding)).Pairwise
      (·.slot < ·.slot) := by
    rw [forwardId?_eq]
    exact hm.ordered.pairwise_filterMap hs.ephemerons.ordered (hs.ephemerons.listed rfl)
  have hrewritten : ∀ slot,
      (moved.map (Option.map (Object.mapReferenceFields (h.forwardIdD forwarding)))).getD slot none =
        (moved.getD slot none).map (Object.mapReferenceFields (h.forwardIdD forwarding)) :=
    fun slot => getD_map_option _ _ _
  refine ⟨rewriteObjects_eq_ok fun slot' o' ho' id hid => ?_, _, processWeakTargets_eq_ok
    hweakOrdered ?_ ?_, ?_⟩
  · obtain ⟨slot, o, id', ho, hφ, -, hp⟩ := hm.origin slot' o' ho'
    exact (hm.closed slot o ho (by rw [hφ]; rfl)).1 id (hp ▸ hid)
  · intro owner hmem
    obtain ⟨o, ho, -⟩ := (hs.weakRefs.mem owner).mp hmem
    exact ⟨_, o, resolve_of_lookup ho⟩
  · intro owner hmem owner' hF
    obtain ⟨o, o', ho, ho', hp, hk⟩ := hm.owner hs.weakRefs hmem hF
    cases hpayload : o.payload with
    | weakRef target =>
      refine ⟨o'.mapReferenceFields (h.forwardIdD forwarding), target, ?_, ?_, ?_⟩
      · rw [hrewritten, ho']
        rfl
      · show o'.payload.mapReferenceFields _ = _
        rw [hp, hpayload]
        rfl
      · exact hs.fields owner.slot o ho target (by simp [hpayload, Payload.allFields, Payload.weakFields])
    | _ =>
      rw [hpayload] at hk
      cases hk
  · -- weak references are not ephemerons, so the second pass finds those untouched
    generalize hweak : ((h.weakRefs.filterMap (h.forwardId? forwarding)).map ObjectId.slot).foldl
      (touch (Object.forwardWeakTarget (h.forwardId? forwarding)))
      (moved.map (Option.map (Object.mapReferenceFields (h.forwardIdD forwarding)))) = moved'
    have hmoved' : ∀ slot, moved'.getD slot none = (moved.getD slot none).map fun o' =>
        (o'.mapReferenceFields (h.forwardIdD forwarding)).forwardWeakTarget
          (h.forwardId? forwarding) := by
      intro slot
      rw [← hweak, getD_foldl_touch _ _ (nodup_slots hweakOrdered), hrewritten]
      cases ho' : moved.getD slot none with
      | none => simp
      | some o' =>
        split
        · rfl
        · next hnot =>
          rw [Option.map_some, Option.map_some, Object.forwardWeakTarget_of_kind]
          intro hkind
          refine hnot (hm.registered hs.storage hs.weakRefs ho' ?_)
          simpa [Object.mapReferenceFields] using hkind
    have hlength : moved'.length = moved.length := by
      rw [← hweak, length_foldl_touch, List.length_map]
    have hephemerons : h.processEphemerons forwarding moved' = _ :=
      processEphemerons_eq_ok hephemeronOrdered ?_ ?_
    · rw [hephemerons]
      congr 2
      refine ext_getD none (by simpa using hlength) fun slot => ?_
      rw [getD_foldl_touch _ _ (nodup_slots hephemeronOrdered), hmoved', getD_map_option]
      have hforward : ∀ o' : Object, o'.forward (h.forwardId? forwarding) =
          ((o'.mapReferenceFields (h.forwardIdD forwarding)).forwardWeakTarget
            (h.forwardId? forwarding)).forwardEphemeron (h.forwardId? forwarding) := by
        intro o'
        rw [forwardIdD_eq]
        rfl
      cases ho' : moved.getD slot none with
      | none => simp
      | some o' =>
        simp only [Option.map_some, hforward]
        split
        · rfl
        · next hnot =>
          rw [Object.forwardEphemeron_of_kind]
          intro hkind
          refine hnot (hm.registered hs.storage hs.ephemerons ho' ?_)
          simpa [Object.mapReferenceFields, Object.forwardWeakTarget] using hkind
    · intro owner hmem
      obtain ⟨o, ho, -⟩ := (hs.ephemerons.mem owner).mp hmem
      exact ⟨_, o, resolve_of_lookup ho⟩
    · intro owner hmem owner' hF
      obtain ⟨o, o', ho, ho', hp, hk⟩ := hm.owner hs.ephemerons hmem hF
      refine ⟨(o'.mapReferenceFields (h.forwardIdD forwarding)).forwardWeakTarget
        (h.forwardId? forwarding), by rw [hmoved', ho']; rfl, ?_⟩
      -- the passes so far leave an ephemeron as it is
      have hpayload : ((o'.mapReferenceFields (h.forwardIdD forwarding)).forwardWeakTarget
          (h.forwardId? forwarding)).payload = o.payload := by
        show (o'.payload.mapReferenceFields _).forwardWeakTarget _ = _
        rw [hp]
        cases hpayload : o.payload with
        | ephemeron key value valueIsRef => rfl
        | _ =>
          rw [hpayload] at hk
          cases hk
      rw [hpayload]
      refine checkEphemeronForwarding_eq_ok (hs.fields owner.slot o ho) ?_
      have hφ : (forwarding.getD owner.slot none).isSome = true := by
        obtain ⟨o'', ho'', -⟩ := (hs.ephemerons.mem owner).mp hmem
        rw [← forwardId?_of_lookup ho'', hF]
        rfl
      exact (hm.closed owner.slot o ho hφ).2

end Moves

/-! ## The remembered set -/

section Remembered

variable {h : Heap}

/-- The forwarded remembered set names every forwarded entry once. -/
theorem rewriteRememberedSet_ok (forwarding : ForwardingTable)
    (hresolves : ∀ id ∈ h.rememberedSet, h.Resolves id) :
    ∃ rewritten, h.rewriteRememberedSet forwarding = .ok rewritten ∧ rewritten.Nodup ∧
      ∀ id', id' ∈ rewritten ↔ ∃ id ∈ h.rememberedSet, h.forwardId? forwarding id = some id' := by
  have hloop : Yields (h.rewriteRememberedSet forwarding) (fun rewritten => rewritten.Nodup ∧
      ∀ id', id' ∈ rewritten ↔ ∃ id ∈ h.rememberedSet, h.forwardId? forwarding id = some id')
      fun _ => False := by
    unfold rewriteRememberedSet
    refine yields_foldlM (P := fun seen (rewritten : List ObjectId) => rewritten.Nodup ∧
      ∀ id', id' ∈ rewritten ↔ ∃ id ∈ seen, h.forwardId? forwarding id = some id') _ []
      ⟨List.nodup_nil, by simp⟩ ?_
    rintro seen id acc hid ⟨hnodup, hmem⟩
    rw [forwardId_of_resolves (hresolves id hid), ok_bind]
    have hseen : ∀ id', (∃ x ∈ seen ++ [id], h.forwardId? forwarding x = some id') ↔
        id' ∈ acc ∨ h.forwardId? forwarding id = some id' := by
      intro id'
      rw [hmem]
      simp only [List.mem_append, List.mem_singleton, or_and_right, exists_or, exists_eq_left]
    simp only [hseen]
    cases hF : h.forwardId? forwarding id with
    | none => exact ⟨hnodup, by simp⟩
    | some destination =>
      show Yields (.ok (if acc.contains destination = true then acc else acc ++ [destination])) _ _
      rw [yields_ok]
      split
      · next hin =>
        rw [List.contains_eq_mem, decide_eq_true_eq] at hin
        refine ⟨hnodup, fun id' => ⟨.inl, ?_⟩⟩
        rintro (hmem' | heq)
        · exact hmem'
        · cases heq
          exact hin
      · next hnot =>
        rw [List.contains_eq_mem, decide_eq_true_eq] at hnot
        constructor
        · refine List.nodup_append.mpr ⟨hnodup, List.nodup_singleton _, ?_⟩
          rintro a ha b hb rfl
          rw [List.mem_singleton] at hb
          exact hnot (hb ▸ ha)
        · intro id'
          rw [List.mem_append, List.mem_singleton, Option.some.injEq, eq_comm (a := destination)]
  exact hloop.exists_ok

theorem hasYoungReference_eq_ok {o : Object}
    (hvalid : ∀ value ∈ o.payload.referenceFields, h.Valid value) :
    ∃ young, h.hasYoungReference o = .ok young ∧
      (young = true ↔ ∃ id, .object id ∈ o.payload.referenceFields ∧ h.NamesYoung id) := by
  unfold hasYoungReference
  refine (foldlM_flag_eq_ok (p := fun value => ∃ id, value = .object id ∧ h.NamesYoung id) false
    ?_).imp fun young hyoung => ⟨hyoung.1, hyoung.2.trans ?_⟩
  · intro found value hvalue
    cases value with
    | object id =>
      obtain ⟨slot, target, hr⟩ := valid_object.mp (hvalid _ hvalue)
      have hnames : h.NamesYoung id ↔ target.isYoung = true := by
        constructor
        · rintro ⟨slot', target', hr', hy⟩
          rw [hr] at hr'
          cases hr'
          exact hy
        · exact fun hy => ⟨slot, target, hr, hy⟩
      refine ⟨found || target.isYoung, bind_eq_ok.mpr ⟨_, hr, rfl⟩, ?_⟩
      rw [Bool.or_eq_true, ← hnames]
      simp
    | _ => exact ⟨found, rfl, by simp⟩
  · constructor
    · rintro (hno | ⟨value, hvalue, id, rfl, hy⟩)
      · cases hno
      · exact ⟨id, hvalue, hy⟩
    · rintro ⟨id, hvalue, hy⟩
      exact .inr ⟨_, hvalue, id, rfl, hy⟩

/-- Every object is old. -/
def AllOld (h : Heap) : Prop := ∀ slot o, h.objectAt slot = some o → o.isOld = true

theorem hasYoungReference_of_allOld (hold : h.AllOld) {o : Object}
    (hvalid : ∀ value ∈ o.payload.referenceFields, h.Valid value) :
    h.hasYoungReference o = .ok false := by
  obtain ⟨young, hok, hiff⟩ := hasYoungReference_eq_ok hvalid
  have hnone : young = false := by
    rw [← Bool.not_eq_true, hiff]
    rintro ⟨id, -, slot, target, hr, hyoung⟩
    have hisOld := hold slot target (objectAt_of_resolve hr)
    unfold Object.isOld at hisOld
    unfold Object.isYoung at hyoung
    cases hg : target.generation <;> simp_all
  rw [hok, hnone]

theorem prunedRememberedSet_of_allOld (hold : h.AllOld)
    (hvalid : ∀ slot o, h.objectAt slot = some o → ∀ value ∈ o.payload.referenceFields,
      h.Valid value) : h.prunedRememberedSet = .ok [] := by
  have hloop : Yields h.prunedRememberedSet (· = []) fun _ => False := by
    unfold prunedRememberedSet
    refine yields_foldlM_range (P := fun _ pruned => pruned = []) rfl ?_
    rintro slot pruned - rfl
    split
    · next o ho =>
      split
      · rw [hasYoungReference_of_allOld hold (hvalid slot o ho)]
        rfl
      · rfl
    · rfl
  obtain ⟨pruned, hok, rfl⟩ := hloop.exists_ok
  exact hok

theorem recordPromotedObjectEdges_of_allOld (hold : h.AllOld)
    (hvalid : ∀ slot o, h.objectAt slot = some o → ∀ value ∈ o.payload.referenceFields,
      h.Valid value) {slots : List ℕ} (hslots : ∀ slot ∈ slots, ∃ o, h.objectAt slot = some o) :
    recordPromotedObjectEdges slots h = .ok () h := by
  induction slots with
  | nil => rfl
  | cons slot slots ih =>
    obtain ⟨o, ho⟩ := hslots slot List.mem_cons_self
    have hwp : wp (recordPromotedObjectEdges (slot :: slots)) (fun _ h' => h' = h)
        (fun _ _ => False) h := by
      unfold recordPromotedObjectEdges
      rw [wp_bind, wp_get]
      simp only [ho, hold slot o ho, Bool.not_true, Bool.false_eq_true, if_false]
      refine wp_query_ok (hasYoungReference_of_allOld hold (hvalid slot o ho)) ?_
      exact (wp_eq_ok (ih fun x hx => hslots x (List.mem_cons_of_mem _ hx))).mpr rfl
    unfold wp at hwp
    split at hwp
    · next hok => rw [hok, hwp]
    · exact hwp.elim

end Remembered

/-! ## The collected heap -/

/-- What counts as live holds the roots and is closed under strong references and live
ephemerons. -/
structure Marked (h : Heap) (kind : CollectionKind) (roots : List Value) : Prop where
  roots : ∀ id, .object id ∈ roots → h.NamesLive kind id
  strong : ∀ slot o, h.objectAt slot = some o → o.countsAsLive kind = true →
    ∀ id, .object id ∈ o.payload.referenceFields → h.NamesLive kind id
  ephemeron : h.EphemeronClosed kind

/-- The heap a collection installs, with the remembered set given. -/
def collected (h : Heap) (r : CompactionResult) (rememberedSet : List ObjectId) : Heap :=
  { h.mapRoots (Value.mapObject (h.forwardIdD r.forwarding)) with
    objects := r.objects.map (Option.map (Object.forward (h.forwardId? r.forwarding)))
    generations := r.generations
    rememberedSet := rememberedSet
    weakRefs := h.weakRefs.filterMap (h.forwardId? r.forwarding)
    internTable := h.forwardInternTable fun slot => r.forwarding.getD slot none
    ephemerons := h.ephemerons.filterMap (h.forwardId? r.forwarding)
    phase := .idle
    issued := r.issued }

section Collected

variable {h : Heap} {kind : CollectionKind} {roots : List Value} {r : CompactionResult}

/-- The identifiers of the survivors. -/
theorem CompactedUpTo.isSome_iff (hr : h.CompactedUpTo kind h.objects.length r) {slot : ℕ} :
    (r.forwarding.getD slot none).isSome = true ↔
      ∃ o, h.objectAt slot = some o ∧ o.countsAsLive kind = true := by
  constructor
  · intro hsome
    obtain ⟨id', hid'⟩ := Option.isSome_iff_exists.mp hsome
    obtain ⟨-, o, ho, hs⟩ := hr.forwarded slot id' hid'
    exact ⟨o, ho, survives_eq kind o ▸ hs⟩
  · rintro ⟨o, ho, hlive⟩
    obtain ⟨g, -, hf, -⟩ := hr.moved slot o (lt_length_of_objectAt ho) ho (survives_eq kind o ▸ hlive)
    rw [hf]
    rfl

/-- Where a survivor has gone. -/
theorem CompactedUpTo.forwarding_eq (hr : h.CompactedUpTo kind h.objects.length r) {slot : ℕ}
    {o : Object} {id' : ObjectId} (ho : h.objectAt slot = some o)
    (hid' : r.forwarding.getD slot none = some id') :
    o.survives kind = true ∧ id'.slot = h.slideOf kind slot ∧
      r.objects.getD id'.slot none = some o.promote ∧
      r.generations.getD id'.slot 0 = id'.generation ∧
      destinationGeneration slot id'.slot (h.generationAt id'.slot) = .ok id'.generation := by
  obtain ⟨hlt, o₁, ho₁, hs⟩ := hr.forwarded slot id' hid'
  rw [ho] at ho₁
  cases ho₁
  obtain ⟨g, hg, hf, hmoved, hgeneration⟩ := hr.moved slot o hlt ho hs
  rw [hid'] at hf
  cases hf
  exact ⟨hs, rfl, hmoved, hgeneration, hg⟩

theorem isSome_forwardId? (hr : h.CompactedUpTo kind h.objects.length r) {id : ObjectId}
    (hlive : h.NamesLive kind id) : (h.forwardId? r.forwarding id).isSome = true := by
  obtain ⟨slot, o, hres, hl⟩ := hlive
  rw [forwardId?_eq, forwardBy_of_resolve hres]
  exact hr.isSome_iff.mpr ⟨o, objectAt_of_resolve hres, hl⟩

theorem CompactedUpTo.ordersListed (hr : h.CompactedUpTo kind h.objects.length r) :
    h.OrdersListed fun slot => r.forwarding.getD slot none := by
  intro slot₁ slot₂ o₁ o₂ id₁ id₂ ho₁ ho₂ hid₁ hid₂ _ _ hlt
  obtain ⟨hs₁, hslot₁, -⟩ := hr.forwarding_eq ho₁ hid₁
  obtain ⟨-, hslot₂, -⟩ := hr.forwarding_eq ho₂ hid₂
  rw [hslot₁, hslot₂]
  exact slide_lt hlt (survivorWidth_pos ho₁ hs₁)

theorem CompactedUpTo.closed (hr : h.CompactedUpTo kind h.objects.length r)
    (hm : h.Marked kind roots) {slot : ℕ} {o : Object} (ho : h.objectAt slot = some o)
    (hsome : (r.forwarding.getD slot none).isSome = true) :
    o.payload.Forwards (h.forwardId? r.forwarding) := by
  obtain ⟨o₁, ho₁, hlive⟩ := hr.isSome_iff.mp hsome
  rw [ho] at ho₁
  cases ho₁
  refine ⟨fun id hid => isSome_forwardId? hr (hm.strong slot o ho hlive id hid), ?_⟩
  intro key value hp hkey
  refine isSome_forwardId? hr (hm.ephemeron slot o key value ho hlive hp ?_)
  obtain ⟨keySlot, keyObject, hres⟩ := resolves_of_forwardId? (Option.isSome_iff_exists.mp hkey).choose_spec
  rw [forwardId?_eq, forwardBy_of_resolve hres] at hkey
  obtain ⟨o₁, ho₁, hkeyLive⟩ := hr.isSome_iff.mp hkey
  rw [objectAt_of_resolve hres] at ho₁
  cases ho₁
  exact ⟨keySlot, keyObject, hres, hkeyLive⟩

theorem CompactedUpTo.moves (hr : h.CompactedUpTo kind h.objects.length r)
    (hm : h.Marked kind roots) : h.Moves r.forwarding r.objects where
  target slot o id' ho hid' :=
    let ⟨_, _, hmoved, _⟩ := hr.forwarding_eq ho hid'
    ⟨o.promote, hmoved, rfl⟩
  origin slot' o' ho' := by
    obtain ⟨slot, o, hlt, ho, hs, rfl⟩ := hr.origin slot' o' ho'
    obtain ⟨g, -, hf, hmoved, -⟩ := hr.moved slot o hlt ho hs
    rw [ho'] at hmoved
    cases hmoved
    exact ⟨slot, o, _, ho, hf, rfl, rfl⟩
  ordered := hr.ordersListed
  closed _ _ ho hsome := hr.closed hm ho hsome

/-! ### What the new heap holds -/

theorem objectAt_collected (h : Heap) (r : CompactionResult) (rememberedSet : List ObjectId)
    (slot : ℕ) : (h.collected r rememberedSet).objectAt slot =
      (r.objects.getD slot none).map (Object.forward (h.forwardId? r.forwarding)) :=
  getD_map_option _ _ _

theorem CompactedUpTo.objectAt_collected (hr : h.CompactedUpTo kind h.objects.length r)
    (rememberedSet : List ObjectId) {slot : ℕ} {o : Object} {id' : ObjectId}
    (ho : h.objectAt slot = some o) (hid' : r.forwarding.getD slot none = some id') :
    (h.collected r rememberedSet).objectAt id'.slot =
      some (o.promote.forward (h.forwardId? r.forwarding)) := by
  obtain ⟨-, -, hmoved, -⟩ := hr.forwarding_eq ho hid'
  rw [Heap.objectAt_collected, hmoved]
  rfl

/-- Every object of the new heap is a survivor that has moved. -/
theorem CompactedUpTo.origin_collected (hr : h.CompactedUpTo kind h.objects.length r)
    {rememberedSet : List ObjectId} {slot' : ℕ} {o' : Object}
    (ho' : (h.collected r rememberedSet).objectAt slot' = some o') :
    ∃ slot o id', h.objectAt slot = some o ∧ r.forwarding.getD slot none = some id' ∧
      id'.slot = slot' ∧ slot' = h.slideOf kind slot ∧ o.survives kind = true ∧
      o' = o.promote.forward (h.forwardId? r.forwarding) := by
  rw [Heap.objectAt_collected, Option.map_eq_some_iff] at ho'
  obtain ⟨moved, hmoved, rfl⟩ := ho'
  obtain ⟨slot, o, hlt, ho, hs, rfl⟩ := hr.origin slot' moved hmoved
  obtain ⟨g, -, hf, hpromoted, -⟩ := hr.moved slot o hlt ho hs
  rw [hmoved] at hpromoted
  cases hpromoted
  exact ⟨slot, o, _, ho, hf, rfl, rfl, hs, rfl⟩

theorem CompactedUpTo.storage (hr : h.CompactedUpTo kind h.objects.length r) (hst : h.Storage)
    (rememberedSet : List ObjectId) : (h.collected r rememberedSet).Storage := by
  have hlength : (h.collected r rememberedSet).objects.length = h.objects.length := by
    rw [← hr.lengths.2.1]
    exact List.length_map _
  refine ⟨hlength ▸ hst.size, ?_, ?_, ?_, ?_⟩
  · rw [hlength, ← hst.lengths]
    exact hr.lengths.2.2
  · intro slot' o' ho'
    obtain ⟨slot, o, id', ho, -, -, rfl, hs, rfl⟩ := hr.origin_collected ho'
    have hfits := hst.slideOf_add_le ho hs
    rw [hlength, Object.width_forward]
    exact hfits
  · intro slot₁' slot₂' o₁' o₂' hlt ho₁' ho₂'
    obtain ⟨slot₁, o₁, id₁, ho₁, -, -, rfl, hs₁, rfl⟩ := hr.origin_collected ho₁'
    obtain ⟨slot₂, o₂, id₂, ho₂, -, -, rfl, hs₂, rfl⟩ := hr.origin_collected ho₂'
    -- the slide keeps the order of the survivors and the gaps between their bases
    have hne₁ := survivorWidth_pos ho₁ hs₁
    have hne₂ := survivorWidth_pos ho₂ hs₂
    have hslots : slot₁ < slot₂ := by
      rcases Nat.lt_trichotomy slot₁ slot₂ with h | h | h
      · exact h
      · subst h
        exact absurd hlt (Nat.lt_irrefl _)
      · exact absurd hlt (Nat.lt_asymm (slide_lt h hne₂))
    have hfits : h.slideOf kind slot₁ + h.survivorWidth kind slot₁ ≤ h.slideOf kind slot₂ :=
      slide_add_le hslots
    rw [survivorWidth_eq ho₁ hs₁] at hfits
    rw [Object.width_forward]
    exact hfits
  · intro slot' o' ho'
    obtain ⟨slot, o, id', ho, hid', rfl, -, -, -⟩ := hr.origin_collected ho'
    obtain ⟨-, -, -, hgeneration, hg⟩ := hr.forwarding_eq ho hid'
    show r.generations.getD id'.slot 0 ≠ 0
    rw [hgeneration]
    refine destinationGeneration_ne_zero hg fun heq => ?_
    rw [← heq]
    exact hst.named slot o ho

theorem CompactedUpTo.relocates (hr : h.CompactedUpTo kind h.objects.length r) (hst : h.Storage)
    (hm : h.Marked kind roots) (rememberedSet : List ObjectId) :
    h.Relocates (h.collected r rememberedSet) fun slot => r.forwarding.getD slot none where
  target slot o id' ho hid' := by
    obtain ⟨-, -, -, hgeneration, hg⟩ := hr.forwarding_eq ho hid'
    refine ⟨o.promote.forward (h.forwardId? r.forwarding), lookup_eq_some.mpr ⟨?_, hgeneration,
      hr.objectAt_collected rememberedSet ho hid'⟩, ?_⟩
    · refine destinationGeneration_ne_zero hg fun heq => ?_
      rw [← heq]
      exact hst.named slot o ho
    · rw [← forwardId?_eq]
      rfl
  origin slot' o' ho' := by
    obtain ⟨slot, o, id', ho, hid', hslot, -⟩ := hr.origin_collected ho'
    exact ⟨slot, o, id', ho, hid', hslot⟩
  ordered := hr.ordersListed
  closed slot o ho hsome := by
    rw [← forwardId?_eq]
    exact hr.closed hm ho hsome

theorem CompactedUpTo.allOld_collected (hr : h.CompactedUpTo kind h.objects.length r)
    (rememberedSet : List ObjectId) : (h.collected r rememberedSet).AllOld := by
  intro slot' o' ho'
  obtain ⟨-, -, -, -, -, -, -, -, rfl⟩ := hr.origin_collected ho'
  rfl

theorem CompactedUpTo.unmarked_collected (hr : h.CompactedUpTo kind h.objects.length r)
    (rememberedSet : List ObjectId) : (h.collected r rememberedSet).Unmarked := by
  intro slot' o' ho'
  obtain ⟨-, -, -, -, -, -, -, -, rfl⟩ := hr.origin_collected ho'
  rfl

/-- A root, forwarded. -/
def forwardRoot (h : Heap) (φ : ℕ → Option ObjectId) (value : Value) : Value :=
  value.mapObject fun id => (h.forwardBy φ id).getD id

theorem mapObject_forwardIdD (h : Heap) (forwarding : ForwardingTable) :
    Value.mapObject (h.forwardIdD forwarding) =
      h.forwardRoot fun slot => forwarding.getD slot none := by
  funext value
  rw [forwardIdD_eq, forwardId?_eq]
  rfl

theorem CompactedUpTo.sound_collected (hr : h.CompactedUpTo kind h.objects.length r)
    (hs : h.Sound) {extraRoots : List Value}
    (hm : h.Marked kind (h.traceCollectionRoots extraRoots)) : (h.collected r []).Sound := by
  have hrel := hr.relocates hs.storage hm []
  have hst := hr.storage hs.storage []
  have hvalid : ∀ value ∈ h.traceCollectionRoots extraRoots, (h.collected r []).Valid
      (value.mapObject (h.forwardIdD r.forwarding)) := by
    intro value hvalue
    rw [mapObject_forwardIdD]
    refine hrel.valid fun id heq => ?_
    rw [← forwardId?_eq]
    exact isSome_forwardId? hr (hm.roots id (heq ▸ hvalue))
  refine hs.relocates hrel hst ?_ ?_ ⟨List.nodup_nil, nofun, ?_⟩ ?_ ?_ rfl
  · intro value hvalue
    obtain ⟨root, hroot, rfl⟩ := List.mem_map.mp hvalue
    exact hvalid root (by simp [traceCollectionRoots, hroot])
  · intro root' hroot'
    obtain ⟨root, hroot, rfl⟩ := List.mem_map.mp hroot'
    refine hvalid root.slot ?_
    simp only [traceCollectionRoots, List.mem_append, List.mem_map]
    exact .inl (.inr ⟨root, hroot, rfl⟩)
  · -- no reference names a young object, since there is none
    rintro slot o ho - id hid ⟨slot', o', hres, hyoung⟩
    have hisOld := hr.allOld_collected [] slot' o' (objectAt_of_resolve hres)
    unfold Object.isYoung Object.isOld at *
    simp_all
  · rw [← forwardId?_eq]
    rfl
  · rw [← forwardId?_eq]
    rfl

end Collected

/-- `h'` is `h` with the objects that `φ` gives an identifier, and every reference, root and
side table forwarded. -/
structure Renames (h h' : Heap) (φ : ℕ → Option ObjectId) : Prop where
  relocates : h.Relocates h' φ
  rootCells : h'.rootCells = h.rootCells.map (h.forwardRoot φ)
  handleRoots : h'.handleRoots =
    h.handleRoots.map fun root => { root with slot := h.forwardRoot φ root.slot }
  weakRefs : h'.weakRefs = h.weakRefs.filterMap (h.forwardBy φ)
  ephemerons : h'.ephemerons = h.ephemerons.filterMap (h.forwardBy φ)
  internTable : h'.internTable = h.forwardInternTable φ
  stressConfig : h'.stressConfig = h.stressConfig

/-- `h'` is what a collection that keeps the objects at the `live` slots makes of `h`: `φ` gives
each of them its new identifier. -/
structure Collected (live : ℕ → Prop) (h h' : Heap) (φ : ℕ → Option ObjectId) : Prop
    extends Renames h h' φ where
  survivors : ∀ slot, (φ slot).isSome = true ↔ live slot
  moved : ∀ slot o id', h.objectAt slot = some o → φ slot = some id' →
    h'.objectAt id'.slot = some (o.promote.forward (h.forwardBy φ))
  slides : ∀ slot id', φ slot = some id' → id'.slot = slide (h.liveWidth live) slot
  generations : ∀ slot id', φ slot = some id' →
    destinationGeneration slot id'.slot (h.generationAt id'.slot) = .ok id'.generation
  kept : ∀ slot', (∀ slot id', φ slot = some id' → id'.slot ≠ slot') →
    h'.generationAt slot' = h.generationAt slot'
  ordered : ∀ slot₁ slot₂ id₁ id₂, φ slot₁ = some id₁ → φ slot₂ = some id₂ → slot₁ < slot₂ →
    id₁.slot < id₂.slot
  packed : ∀ slot' o', h'.objectAt slot' = some o' → ∀ slot < slot', ∃ base o,
    h'.objectAt base = some o ∧ base ≤ slot ∧ slot < base + o.width
  wf : h'.Wf
  allOld : h'.AllOld
  length : h'.objects.length = h.objects.length
  rememberedSet : h'.rememberedSet = []
  phase : h'.phase = .idle

section Slides

variable {h h' : Heap} {live : ℕ → Prop} {φ : ℕ → Option ObjectId} {slot : ℕ}

theorem liveWidth_eq {o : Object} (hlive : live slot) (ho : h.objectAt slot = some o) :
    h.liveWidth live slot = o.width := by
  rw [liveWidth, if_pos hlive, ho, Option.elim_some]

theorem liveWidth_ne_zero (hne : h.liveWidth live slot ≠ 0) :
    live slot ∧ ∃ o, h.objectAt slot = some o := by
  rw [liveWidth] at hne
  split at hne
  · next hlive =>
    cases ho : h.objectAt slot with
    | none =>
      rw [ho] at hne
      exact absurd rfl hne
    | some o => exact ⟨hlive, o, rfl⟩
  · exact absurd rfl hne

/-- Objects that slide together keep their order. -/
theorem ordered_of_slides (hlive : ∀ slot id', φ slot = some id' → live slot ∧
      ∃ o, h.objectAt slot = some o)
    (hslides : ∀ slot id', φ slot = some id' → id'.slot = slide (h.liveWidth live) slot)
    {slot₁ slot₂ : ℕ} {id₁ id₂ : ObjectId} (hid₁ : φ slot₁ = some id₁) (hid₂ : φ slot₂ = some id₂)
    (hlt : slot₁ < slot₂) : id₁.slot < id₂.slot := by
  obtain ⟨hl, o, ho⟩ := hlive slot₁ id₁ hid₁
  have hwidth : h.liveWidth live slot₁ ≠ 0 := by
    rw [liveWidth_eq hl ho]
    exact o.width_pos.ne'
  rw [hslides slot₁ id₁ hid₁, hslides slot₂ id₂ hid₂]
  exact slide_lt hlt hwidth

/-- Objects that slide together are packed from slot zero. -/
theorem Relocates.packed (hr : h.Relocates h' φ)
    (hsurvivors : ∀ slot, (φ slot).isSome = true ↔ live slot)
    (hslides : ∀ slot id', φ slot = some id' → id'.slot = slide (h.liveWidth live) slot)
    {slot' : ℕ} {o' : Object} (ho' : h'.objectAt slot' = some o') (hlt : slot < slot') :
    ∃ base o, h'.objectAt base = some o ∧ base ≤ slot ∧ slot < base + o.width := by
  obtain ⟨source, -, id, -, hid, rfl⟩ := hr.origin slot' o' ho'
  rw [hslides source id hid] at hlt
  obtain ⟨b, -, hle, hcovers⟩ := exists_slide_covers hlt
  have hne : h.liveWidth live b ≠ 0 := by omega
  obtain ⟨hlive, ob, hob⟩ := liveWidth_ne_zero hne
  obtain ⟨id', hid'⟩ := Option.isSome_iff_exists.mp ((hsurvivors b).mpr hlive)
  obtain ⟨ob', hob', hp⟩ := hr.target b ob id' hob hid'
  have hwidth : ob'.width = h.liveWidth live b := by
    rw [liveWidth_eq hlive hob, Object.width, hp, Payload.storageSlotCount_forward]
    rfl
  refine ⟨id'.slot, ob', objectAt_of_lookup hob', ?_, ?_⟩
  · rw [hslides b id' hid']
    exact hle
  · rw [hslides b id' hid', hwidth]
    exact hcovers

end Slides

section Collect

variable {h : Heap} {kind : CollectionKind} {r : CompactionResult}

/-- Where the survivors slide. -/
theorem CompactedUpTo.slides (hr : h.CompactedUpTo kind h.objects.length r) {slot : ℕ}
    {id' : ObjectId} (hid' : r.forwarding.getD slot none = some id') : id'.slot =
      slide (h.liveWidth fun slot => ∃ o, h.objectAt slot = some o ∧ o.countsAsLive kind = true)
        slot := by
  obtain ⟨-, o, ho, -⟩ := hr.forwarded slot id' hid'
  rw [(hr.forwarding_eq ho hid').2.1, slideOf, survivorWidth_eq_liveWidth]

theorem CompactedUpTo.renames (hr : h.CompactedUpTo kind h.objects.length r) (hs : h.Sound)
    {roots : List Value} (hm : h.Marked kind roots) :
    h.Renames (h.collected r []) fun slot => r.forwarding.getD slot none where
  relocates := hr.relocates hs.storage hm []
  rootCells := by
    rw [← mapObject_forwardIdD]
    rfl
  handleRoots := by
    rw [← mapObject_forwardIdD]
    rfl
  weakRefs := by
    rw [← forwardId?_eq]
    rfl
  ephemerons := by
    rw [← forwardId?_eq]
    rfl
  internTable := rfl
  stressConfig := rfl

theorem CompactedUpTo.collected (hr : h.CompactedUpTo kind h.objects.length r) (hs : h.Sound)
    {extraRoots : List Value} (hm : h.Marked kind (h.traceCollectionRoots extraRoots)) :
    Collected (fun slot => ∃ o, h.objectAt slot = some o ∧ o.countsAsLive kind = true) h
      (h.collected r []) fun slot => r.forwarding.getD slot none where
  toRenames := hr.renames hs hm
  survivors slot := hr.isSome_iff
  moved slot o id' ho hid' := by
    rw [hr.objectAt_collected [] ho hid', forwardId?_eq]
  slides _ _ hid' := hr.slides hid'
  generations slot id' hid' := by
    obtain ⟨-, o, ho, -⟩ := hr.forwarded slot id' hid'
    exact (hr.forwarding_eq ho hid').2.2.2.2
  kept slot' hslot' := by
    refine hr.others slot' fun slot o hlt ho hs => ?_
    obtain ⟨g, -, hf, -⟩ := hr.moved slot o hlt ho hs
    exact (hslot' slot _ hf).symm
  ordered _ _ _ _ hid₁ hid₂ hlt := by
    refine ordered_of_slides (fun slot id hid => ?_) (fun _ _ hid => hr.slides hid) hid₁ hid₂ hlt
    obtain ⟨o, ho, hlive⟩ := hr.isSome_iff.mp (by rw [hid]; rfl)
    exact ⟨⟨o, ho, hlive⟩, o, ho⟩
  packed _ _ ho' _ hlt := (hr.relocates hs.storage hm []).packed (fun _ => hr.isSome_iff)
    (fun _ _ hid => hr.slides hid) ho' hlt
  wf := ⟨hr.sound_collected hs hm, hr.unmarked_collected []⟩
  allOld := hr.allOld_collected []
  length := by
    rw [← hr.lengths.2.1]
    exact List.length_map _
  rememberedSet := rfl
  phase := rfl

/-- The second half of a collection installs the survivors, or runs out of generations before
it has changed anything. -/
theorem wp_compactMarkedObjects (hs : h.Sound) {extraRoots : List Value}
    (hm : h.Marked kind (h.traceCollectionRoots extraRoots)) :
    wp (compactMarkedObjects kind extraRoots)
      (fun cells h' => ∃ φ, Collected
        (fun slot => ∃ o, h.objectAt slot = some o ∧ o.countsAsLive kind = true) h h' φ ∧
          cells = extraRoots.map (h.forwardRoot φ))
      (fun e h' => h' = h ∧ e = generationExhausted ∧
        h.RunsOut fun slot => ∃ o, h.objectAt slot = some o ∧ o.countsAsLive kind = true) h := by
  unfold compactMarkedObjects
  rw [wp_bind, wp_query]
  refine (yields_compactLiveObjects hs.storage).mono (fun r hr => ?_) fun e he => ⟨rfl, he⟩
  have hmoves := hr.moves hm
  obtain ⟨hrewritten, moved', hweak, hephemerons⟩ := hmoves.passes hs
  have hroots : ∀ value ∈ h.traceCollectionRoots extraRoots, h.rewriteValue r.forwarding value =
      .ok (value.mapObject (h.forwardIdD r.forwarding)) := fun value hvalue =>
    rewriteValue_eq_ok fun id heq => isSome_forwardId? hr (hm.roots id (heq ▸ hvalue))
  obtain ⟨rewritten, hremembered, -⟩ := rewriteRememberedSet_ok (h := h) r.forwarding fun id hid => by
    obtain ⟨o, ho, -⟩ := hs.remembers.old id hid
    exact ⟨id.slot, o, resolve_of_lookup ho⟩
  have htable : h.processInternTable r.forwarding true =
      .ok (h.forwardInternTable fun slot => r.forwarding.getD slot none) := by
    have hordered := hr.ordersListed.pairwise_forwardInternTable hs.interns
    rw [forwardInternTable, ← forwardId?_eq] at hordered ⊢
    refine processInternTable_eq_ok hordered (fun entry hentry => ?_) fun hno => by cases hno
    obtain ⟨o, ho, -⟩ := hs.interns.listed hentry
    exact ⟨_, o, resolve_of_lookup ho⟩
  have hsound := hr.sound_collected hs hm
  have hvalid : ∀ rememberedSet slot o, (h.collected r rememberedSet).objectAt slot = some o →
      ∀ value ∈ o.payload.referenceFields, (h.collected r rememberedSet).Valid value :=
    fun rememberedSet slot o ho value hvalue =>
      (hr.relocates hs.storage hm rememberedSet).valid_fields (hr.storage hs.storage rememberedSet)
        ho value (List.mem_append_left _ hvalue)
  -- the queries after the roots do not look at the roots
  unfold rewriteReferences
  rw [wp_bind, wp_bind, wp_get, wp_bind, wp_eq_ok (rewriteRoots_eq_ok hroots), wp_bind, wp_query]
  show Yields (r.objects.mapM (h.rewriteObject r.forwarding)) _ _
  rw [hrewritten, yields_ok, wp_pure]
  refine wp_query_ok (a := rewritten) hremembered ?_
  refine wp_query_ok (a := (moved', h.weakRefs.filterMap (h.forwardId? r.forwarding))) hweak ?_
  refine wp_query_ok (a := h.forwardInternTable _) htable ?_
  refine wp_query_ok hephemerons ?_
  rw [wp_bind, wp_modify]
  show wp _ _ _ (h.collected r rewritten)
  rw [wp_bind, wp_eq_ok (recordPromotedObjectEdges_of_allOld (hr.allOld_collected rewritten)
    (hvalid rewritten) ?_)]
  · unfold pruneRememberedSet
    rw [wp_bind]
    refine wp_query_ok (prunedRememberedSet_of_allOld (hr.allOld_collected rewritten)
      (hvalid rewritten)) ?_
    rw [wp_modify]
    show wp _ _ _ (h.collected r [])
    refine wp_query_ok (hsound.validateAfterCollection_eq_ok fun value hvalue => ?_)
      ⟨_, hr.collected hs hm, by rw [mapObject_forwardIdD]⟩
    obtain ⟨root, hroot, rfl⟩ := List.mem_map.mp hvalue
    rw [mapObject_forwardIdD]
    refine (hr.relocates hs.storage hm []).valid fun id heq => ?_
    rw [← forwardId?_eq]
    exact isSome_forwardId? hr (hm.roots id (by simp [traceCollectionRoots, ← heq, hroot]))
  · intro slot' hslot'
    obtain ⟨slot, o, hlt, ho, hsurvives, rfl⟩ := hr.promoted slot' hslot'
    obtain ⟨g, -, hf, -⟩ := hr.moved slot o hlt ho hsurvives
    exact ⟨_, hr.objectAt_collected rewritten ho hf⟩

end Collect

/-! ## Atomic collection -/

section SameButMarks

variable {h h₁ h' : Heap} {kind : CollectionKind} {φ : ℕ → Option ObjectId}

theorem SameButMarks.forwardBy (hm : h.SameButMarks h₁) (φ : ℕ → Option ObjectId) :
    h₁.forwardBy φ = h.forwardBy φ := by
  funext id
  by_cases hres : h.Resolves id
  · obtain ⟨slot, o, hr⟩ := hres
    obtain ⟨o₁, hr₁, -⟩ := hm.updates.resolve hr
    rw [forwardBy_of_resolve hr, forwardBy_of_resolve hr₁]
  · have hres₁ : ¬h₁.Resolves id := fun ⟨slot, o₁, hr₁⟩ =>
      let ⟨o, hr, _⟩ := hm.updates.symm.resolve hr₁
      hres ⟨slot, o, hr⟩
    rw [forwardBy_of_not_resolves hres, forwardBy_of_not_resolves hres₁]

theorem SameButMarks.forwardRoot (hm : h.SameButMarks h₁) (φ : ℕ → Option ObjectId) :
    h₁.forwardRoot φ = h.forwardRoot φ := by
  funext value
  rw [Heap.forwardRoot, Heap.forwardRoot, hm.forwardBy]

/-- Renaming does not look at the marks. -/
theorem SameButMarks.renames (hm : h.SameButMarks h₁) (hr : h₁.Renames h' φ) : h.Renames h' φ := by
  refine ⟨⟨?_, ?_, ?_, ?_⟩, ?_, ?_, ?_, ?_, ?_, ?_⟩
  · intro slot o id' ho hid'
    obtain ⟨o₁, ho₁, hs⟩ := hm.updates.objectAt ho
    obtain ⟨o', ho', hp⟩ := hr.relocates.target slot o₁ id' ho₁ hid'
    exact ⟨o', ho', by rw [hp, hs.payload, hm.forwardBy]⟩
  · intro slot' o' ho'
    obtain ⟨slot, o₁, id', ho₁, hid', hslot⟩ := hr.relocates.origin slot' o' ho'
    obtain ⟨o, ho, -⟩ := hm.updates.objectAt_symm ho₁
    exact ⟨slot, o, id', ho, hid', hslot⟩
  · intro slot₁ slot₂ o₁ o₂ id₁ id₂ ho₁ ho₂ hid₁ hid₂ hl₁ hl₂ hlt
    obtain ⟨m₁, hm₁, hs₁⟩ := hm.updates.objectAt ho₁
    obtain ⟨m₂, hm₂, hs₂⟩ := hm.updates.objectAt ho₂
    exact hr.relocates.ordered slot₁ slot₂ m₁ m₂ id₁ id₂ hm₁ hm₂ hid₁ hid₂
      (hs₁.payload ▸ hl₁) (hs₂.payload ▸ hl₂) hlt
  · intro slot o ho hsome
    obtain ⟨o₁, ho₁, hs⟩ := hm.updates.objectAt ho
    have hclosed := hr.relocates.closed slot o₁ ho₁ hsome
    rwa [hs.payload, hm.forwardBy] at hclosed
  · rw [hr.rootCells, hm.rootCells, hm.forwardRoot]
  · rw [hr.handleRoots, hm.handleRoots, hm.forwardRoot]
  · rw [hr.weakRefs, hm.weakRefs, hm.forwardBy]
  · rw [hr.ephemerons, hm.ephemerons, hm.forwardBy]
  · rw [hr.internTable, forwardInternTable, hm.internTable, hm.forwardBy, forwardInternTable]
  · rw [hr.stressConfig, hm.stressConfig]

theorem SameButMarks.liveWidth (hm : h.SameButMarks h₁) (live : ℕ → Prop) :
    h₁.liveWidth live = h.liveWidth live := by
  funext slot
  have hwidth : (h₁.objectAt slot).elim 0 Object.width = (h.objectAt slot).elim 0 Object.width := by
    have hrel := hm.updates.objects slot
    generalize h₁.objectAt slot = o₁ at hrel ⊢
    generalize h.objectAt slot = o at hrel ⊢
    cases hrel with
    | none => rfl
    | some hs =>
      rw [Option.elim_some, Option.elim_some, hs]
      rfl
  rw [Heap.liveWidth, Heap.liveWidth, hwidth]

theorem SameButMarks.runsOut (hm : h.SameButMarks h₁) {live : ℕ → Prop} (hr : h₁.RunsOut live) :
    h.RunsOut live := by
  obtain ⟨slot, hlive, hmoves, hmax⟩ := hr
  rw [hm.liveWidth] at hmoves hmax
  refine ⟨slot, hlive, hmoves, ?_⟩
  rw [← hmax, generationAt, generationAt, hm.updates.generations]

theorem SameButMarks.exhausted (hm : h.SameButMarks h₁) {live : ℕ → Prop} (hr : h.RunsOut live) :
    h₁.Exhausted := by
  obtain ⟨slot, hmax⟩ := hr.exhausted
  refine ⟨slot, ?_⟩
  rw [← hmax, generationAt, generationAt, hm.updates.generations]

theorem SameButMarks.collected (hm : h.SameButMarks h₁) {live : ℕ → Prop}
    (hc : Collected live h₁ h' φ) : Collected live h h' φ where
  toRenames := hm.renames hc.toRenames
  survivors := hc.survivors
  moved slot o id' ho hid' := by
    obtain ⟨o₁, ho₁, hs⟩ := hm.updates.objectAt ho
    rw [hc.moved slot o₁ id' ho₁ hid', hm.forwardBy, hs]
    rfl
  slides slot id' hid' := by rw [hc.slides slot id' hid', hm.liveWidth]
  generations slot id' hid' := by
    rw [← hc.generations slot id' hid', generationAt, generationAt, hm.updates.generations]
  kept slot' hslot' := by
    rw [hc.kept slot' hslot', generationAt, generationAt, hm.updates.generations]
  ordered := hc.ordered
  packed := hc.packed
  wf := hc.wf
  allOld := hc.allOld
  length := hc.length.trans hm.updates.length
  rememberedSet := hc.rememberedSet
  phase := hc.phase

/-- Marking what is live leaves a heap that is ready for compaction. -/
theorem SameButMarks.marked (hm : h.SameButMarks h₁) (hs : h.Sound) {roots : List Value}
    (hroots : ∀ value ∈ roots, h.Valid value)
    (hlive : ∀ slot, (∃ o, h₁.objectAt slot = some o ∧ o.countsAsLive kind = true) ↔
      h.Live kind roots slot) : h₁.Marked kind roots := by
  have hs₁ := hm.sound hs
  have hnames : ∀ id slot o, h₁.resolve id = .ok (slot, o) → h.Live kind roots slot →
      h₁.NamesLive kind id := by
    intro id slot o hr hl
    obtain ⟨o₁, ho₁, hcounts⟩ := (hlive slot).mpr hl
    rw [objectAt_of_resolve hr] at ho₁
    cases ho₁
    exact ⟨slot, o, hr, hcounts⟩
  have hresolves : ∀ slot o id, h₁.objectAt slot = some o → .object id ∈ o.payload.allFields →
      ∃ slot' o', h₁.resolve id = .ok (slot', o') := fun slot o id ho hid =>
    hs₁.fields slot o ho (.object id) hid id rfl
  refine ⟨?_, ?_, ?_⟩
  · intro id hid
    obtain ⟨slot, o, hr⟩ := hroots _ hid id rfl
    obtain ⟨o₁, hr₁, -⟩ := hm.updates.resolve hr
    exact hnames id slot o₁ hr₁ (.init (.inr ⟨id, o, hid, hr⟩))
  · intro slot o ho hcounts id hid
    obtain ⟨slot', o', hr⟩ := hresolves slot o id ho (List.mem_append_left _ hid)
    exact hnames id slot' o' hr (.edge ((hlive slot).mp ⟨o, ho, hcounts⟩)
      (hm.strongReference.mp ⟨o, id, o', ho, hid, hr⟩))
  · rintro slot o keyId valueId ho hcounts hp ⟨key, keyObject, hkey, hkeyCounts⟩
    obtain ⟨value, valueObject, hvalue⟩ := hresolves slot o valueId ho (by
      simp [hp, Payload.allFields, Payload.weakFields])
    refine hnames valueId value valueObject hvalue (.gate ((hlive slot).mp ⟨o, ho, hcounts⟩)
      ((hlive key).mp ⟨keyObject, objectAt_of_resolve hkey, hkeyCounts⟩)
      (hm.ephemeronReference.mp ?_))
    exact ⟨o, keyId, valueId, keyObject, valueObject, ho, hp, hkey, hvalue⟩

end SameButMarks

theorem Wf.unmarked {h : Heap} (hw : h.Wf) (hidle : h.phase = .idle) : h.Unmarked := by
  have hphase := hw.phase
  rwa [PhaseSound, hidle] at hphase

/-- Compacting a heap whose live objects are marked collects the heap as it was before they
were marked. -/
theorem SameButMarks.wp_compactMarkedObjects {h h₁ : Heap} {kind : CollectionKind}
    {extraRoots : List Value} (hm : h.SameButMarks h₁) (hs : h.Sound)
    (hextra : ∀ value ∈ extraRoots, h.Valid value)
    (hlive : ∀ slot, (∃ o, h₁.objectAt slot = some o ∧ o.countsAsLive kind = true) ↔
      h.Live kind (h.traceCollectionRoots extraRoots) slot) :
    wp (compactMarkedObjects kind extraRoots)
      (fun cells h' => ∃ φ, Collected (h.Live kind (h.traceCollectionRoots extraRoots)) h h' φ ∧
        cells = extraRoots.map (h.forwardRoot φ))
      (fun e h' => h' = h₁ ∧ e = generationExhausted ∧
        h.RunsOut (h.Live kind (h.traceCollectionRoots extraRoots))) h₁ := by
  have hmarked := hm.marked hs (hs.traceCollectionRoots hextra) hlive
  rw [← hm.traceCollectionRoots] at hmarked
  have hset : (fun slot => ∃ o, h₁.objectAt slot = some o ∧ o.countsAsLive kind = true) =
      h.Live kind (h.traceCollectionRoots extraRoots) := by
    funext slot
    exact propext (hlive slot)
  refine wp_mono (Heap.wp_compactMarkedObjects (hm.sound hs) hmarked) ?_ ?_
  · rintro cells h' ⟨φ, hc, rfl⟩
    refine ⟨φ, ?_, by rw [hm.forwardRoot]⟩
    rw [hset] at hc
    exact hm.collected hc
  · rintro e h' ⟨rfl, he, hruns⟩
    rw [hset] at hruns
    exact ⟨rfl, he, hm.runsOut hruns⟩

/-- An atomic collection keeps exactly the live objects, or runs out of generations. -/
theorem wp_collectAtomically {h : Heap} {kind : CollectionKind} {extraRoots : List Value}
    (hw : h.Wf) (hidle : h.phase = .idle) (hextra : ∀ value ∈ extraRoots, h.Valid value) :
    wp (collectAtomically kind extraRoots)
      (fun cells h' => ∃ φ, Collected (h.Live kind (h.traceCollectionRoots extraRoots)) h h' φ ∧
        cells = extraRoots.map (h.forwardRoot φ))
      (fun e h' => h.MarksOnly h' ∧ e = generationExhausted ∧
        h.RunsOut (h.Live kind (h.traceCollectionRoots extraRoots))) h := by
  have hs := hw.toSound
  unfold collectAtomically
  refine wp_query_ok hs.validateBeforeCollection_eq_ok ?_
  rw [wp_bind]
  refine wp_mono (wp_markCollectionRoots hs (hw.unmarked hidle) hextra)
    (fun _ h₁ hpost => ?_) fun _ _ he => he.elim
  obtain ⟨hm, hlive⟩ := hpost
  refine wp_mono (hm.same.wp_compactMarkedObjects hs hextra hlive) (fun _ _ hpost => hpost)
    fun e h' he => ?_
  obtain ⟨rfl, he⟩ := he
  exact ⟨hm, he⟩

end Heap

end LanguageRuntime.Gc
