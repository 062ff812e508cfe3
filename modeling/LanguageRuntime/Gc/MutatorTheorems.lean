import LanguageRuntime.Gc.CurrencyTheorems
import LanguageRuntime.Gc.ExhaustionTheorems
import LanguageRuntime.Gc.IdentityTheorems
import LanguageRuntime.Gc.RootCellTheorems

/-!
# What a mutator may rely on

A mutator that calls the heap with current identifiers only, and that sets its root cells to
identifiers that resolve, finds the representation invariant kept and its own identifiers current
after every operation, until the heap exceeds its limits.
-/

namespace LanguageRuntime.Gc

open LanguageRuntime LanguageRuntime.Library

namespace Heap

/-- The heap is the outcome of a run in which every operation was called with current identifiers,
unless the heap has exceeded its limits. -/
def Driven (config : StressConfig) (h : Heap) : Prop :=
  ∃ actions, h = (Heap.empty config).run actions ∧ (h.Unspent →
    Meets (fun h action => action.after h)
      (fun h action => h.CalledCurrent action ∧ (action.after h).Within) (Heap.empty config) actions)

/-- The value is no reference, or the current identifier of an object. -/
def NamesCurrent (h : Heap) (v : Value) : Prop := ∀ id, v = .object id → h.Current id

section Driven

variable {config : StressConfig} {h h' : Heap} {op : Operation} {cells : List Value} {v : Value}

theorem driven_empty (config : StressConfig) : (Heap.empty config).Driven config :=
  ⟨[], rfl, fun _ => trivial⟩

theorem Driven.reached (hd : h.Driven config) : h.Reached 0 0 0 := by
  obtain ⟨actions, rfl, -⟩ := hd
  exact GrowthInvariant.reached.runs (empty_reached config) actions

theorem Driven.identities (hd : h.Driven config) : IdentitiesHold [] h := by
  obtain ⟨actions, rfl, -⟩ := hd
  exact run_identitiesHold (empty_identitiesHold config) actions

theorem Driven.wf (hd : h.Driven config) (hu : h.Unspent) : h.Wf := by
  obtain ⟨actions, rfl, hmeets⟩ := hd
  exact (empty_wf config).run ((hmeets hu).mono fun _ _ hstep => hstep.1.regular hstep.2)

/-- One more action. -/
theorem Driven.after (hd : h.Driven config) (action : Action)
    (hcalled : h.Unspent → h.CalledCurrent action) : (action.after h).Driven config := by
  have hreached := hd.reached
  obtain ⟨actions, hrun, hmeets⟩ := hd
  refine ⟨actions ++ [action], ?_, fun hu => ?_⟩
  · rw [run_concat, ← hrun]
  · have hbefore := hreached.unspent action hu
    refine meets_append.mpr ⟨hmeets hbefore, ?_, trivial⟩
    have hstate : actions.foldl (fun h action => action.after h) (Heap.empty config) = h := hrun.symm
    rw [hstate]
    exact ⟨hcalled hbefore, hu.within⟩

theorem Driven.setRoots (hd : h.Driven config)
    (hcells : h.Unspent → ∀ v ∈ cells, h.Valid v) : Driven config { h with rootCells := cells } :=
  hd.after (.setRoots cells) hcells

theorem NamesCurrent.valid (hv : h.NamesCurrent v) : h.Valid v := fun id heq => (hv id heq).resolves

theorem namesCurrent_of_not_isObject (hv : v.isObject = false) : h.NamesCurrent v := by
  rintro id rfl
  cases hv

@[simp] theorem namesCurrent_nil : h.NamesCurrent .nil := namesCurrent_of_not_isObject rfl

@[simp] theorem namesCurrent_int64 (i : Int64) : h.NamesCurrent (.int64 i) :=
  namesCurrent_of_not_isObject rfl

@[simp] theorem namesCurrent_bool (b : Bool) : h.NamesCurrent (.bool b) :=
  namesCurrent_of_not_isObject rfl

/-- Outside incremental compaction an identifier that resolves is the current one. -/
theorem Settled.namesCurrent (hs : h.Settled) (hv : h.Valid v) : h.NamesCurrent v :=
  fun id heq => hs.current (hv id heq)

/-! ## Operations -/

/-- What the mutator finds when an operation returns: its root cells are current, and so is the
identifier it gets. -/
structure Returned (h : Heap) (id : Option ObjectId) : Prop where
  roots : ∀ v ∈ h.rootCells, h.NamesCurrent v
  id : ∀ id', id = some id' → h.Current id'

theorem after_of_ok {id : Option ObjectId} (hrun : op.run h = .ok id h') :
    (Action.call op).after h = h' := by
  have hstep : (Action.call op).step h = .ok id h' := hrun
  rw [Action.after, hstep]

theorem after_of_error {e : HeapError} (hrun : op.run h = .error e h') :
    (Action.call op).after h = h' := by
  have hstep : (Action.call op).step h = .error e h' := hrun
  rw [Action.after, hstep]

/-- An operation called with current identifiers from current roots. -/
theorem Driven.wp_run (hd : h.Driven config) (hroots : h.Unspent → ∀ v ∈ h.rootCells, h.NamesCurrent v)
    (hcalled : h.Unspent → ∀ v ∈ op.arguments, h.NamesCurrent v) :
    wp op.run
      (fun id h' => h'.Driven config ∧ h'.Cells h.rootCells.length ∧ (h'.Unspent → h'.Returned id))
      (fun _ h' => h'.Driven config ∧ h'.Cells h.rootCells.length) h := by
  have hcells := run_cells op h.rootCells.length h rfl
  have hdriven := hd.after (.call op) hcalled
  refine wp_of_run (fun id h' hrun => ?_) fun e h' hrun => ?_
  · have hafter := after_of_ok hrun
    rw [hafter] at hdriven
    have hlength : h'.Cells h.rootCells.length :=
      wp_ok (Q := fun _ => Cells h.rootCells.length) hrun hcells
    refine ⟨hdriven, hlength, fun hu => ?_⟩
    have hbefore : h.Unspent := by
      refine hd.reached.unspent (.call op) ?_
      rw [hafter]
      exact hu
    have hw := hd.wf hbefore
    have hw' := hdriven.wf hu
    have hcurrent : h.RootsCurrent := fun id hid => hroots hbefore _ hid id rfl
    have hroots' : h'.RootsCurrent := by
      refine hw'.rootsCurrent ?_
      rcases ensures_run op with hkeeps | hfresh
      · exact wp_ok (Q := fun _ => Rooted) hrun (hkeeps h (.inr hcurrent))
      · have hfresh' := wp_ok (Q := fun _ => FreshRoots) hrun (hfresh h (hw.freshRoots hcurrent))
        exact hw'.rooted_of_fresh hfresh'
    refine ⟨fun v hv id heq => hroots' id (heq ▸ hv), ?_⟩
    rintro id' rfl
    have hsettled : h'.Settled := wp_ok hrun (settles_run op h) rfl
    obtain ⟨⟨slot, o⟩, hr⟩ := wp_ok hrun (run_returnsCurrent op h hd.identities) id' rfl hu.slots
    exact hsettled.current ⟨slot, o, hr⟩
  · rw [after_of_error hrun] at hdriven
    exact ⟨hdriven, wp_error (E := fun _ => Cells h.rootCells.length) hrun hcells⟩

/-- An operation that ends a phase leaves current roots behind, whatever identifiers the roots were
before. -/
theorem Driven.wp_settles (hd : h.Driven config) (harguments : op.arguments = [])
    (hsettles : wp op.run (fun _ => Settled) (fun _ _ => True) h)
    (herror : h.Wf → wp op.run (fun _ _ => True) (fun _ h' => h'.Exhausted) h) :
    wp op.run (fun _ h' => h'.Driven config ∧ h'.Cells h.rootCells.length ∧ h'.Settled)
      (fun _ h' => h'.Driven config ∧ h'.Cells h.rootCells.length ∧ ¬h'.Unspent) h := by
  have hcells := run_cells op h.rootCells.length h rfl
  have hcalled : h.CalledCurrent (.call op) := by
    intro v hv
    rw [harguments] at hv
    cases hv
  have hdriven := hd.after (.call op) fun _ => hcalled
  refine wp_of_run (fun id h' hrun => ?_) fun e h' hrun => ?_
  · rw [after_of_ok hrun] at hdriven
    exact ⟨hdriven, wp_ok (Q := fun _ => Cells h.rootCells.length) hrun hcells,
      wp_ok (Q := fun _ => Settled) hrun hsettles⟩
  · have hafter := after_of_error hrun
    have hspent : h'.Unspent → h.Unspent := fun hu => by
      refine hd.reached.unspent (.call op) ?_
      rw [hafter]
      exact hu
    rw [hafter] at hdriven
    refine ⟨hdriven, wp_error (E := fun _ => Cells h.rootCells.length) hrun hcells, fun hu => ?_⟩
    have hexhausted := wp_error (E := fun _ => Exhausted) hrun (herror (hd.wf (hspent hu)))
    exact hu.within.generations hexhausted

theorem Driven.wp_finishIncrementalMarking (hd : h.Driven config)
    (hactive : h.incrementalMarkingActive = true) :
    wp Operation.finishIncrementalMarking.run
      (fun _ h' => h'.Driven config ∧ h'.Cells h.rootCells.length ∧ h'.Settled)
      (fun _ h' => h'.Driven config ∧ h'.Cells h.rootCells.length ∧ ¬h'.Unspent) h := by
  refine hd.wp_settles rfl ?_ fun hw => ?_
  · exact Ensures.bind (settles_finishIncrementalMarkingImpl []) (fun _ => .pure _) h trivial
  · cases hphase : h.phase with
    | marking worklist =>
      show wp (finishIncrementalMarkingImpl [] >>= _) _ _ h
      rw [wp_bind]
      refine wp_mono (wp_finishIncrementalMarkingImpl hw hphase fun _ hv => nomatch hv)
        (fun _ _ _ => trivial) fun _ h' he => he.1.1.exhausted he.2.2
    | _ => rw [incrementalMarkingActive, hphase] at hactive; cases hactive

theorem Driven.wp_finishIncrementalCompaction (hd : h.Driven config)
    (hactive : h.incrementalCompactionActive = true) :
    wp Operation.finishIncrementalCompaction.run
      (fun _ h' => h'.Driven config ∧ h'.Cells h.rootCells.length ∧ h'.Settled)
      (fun _ h' => h'.Driven config ∧ h'.Cells h.rootCells.length ∧ ¬h'.Unspent) h := by
  refine hd.wp_settles rfl ?_ fun hw => ?_
  · exact Ensures.bind (settles_finishIncrementalCompactionImpl []) (fun _ => .pure _) h trivial
  · cases hphase : h.phase with
    | compacting c =>
      show wp (finishIncrementalCompactionImpl [] >>= _) _ _ h
      rw [wp_bind]
      exact wp_mono (wp_finishIncrementalCompactionImpl hw hphase fun _ hv => nomatch hv)
        (fun _ _ _ => trivial) fun _ _ he => he.elim
    | _ => rw [incrementalCompactionActive, hphase] at hactive; cases hactive

/-- The roots of a heap outside incremental compaction are current. -/
theorem Driven.settled_roots (hd : h.Driven config) (hs : h.Settled) (hu : h.Unspent) :
    ∀ v ∈ h.rootCells, h.NamesCurrent v :=
  fun v hv => hs.namesCurrent ((hd.wf hu).cells v hv)

end Driven

/-! ## Loads -/

section Loads

variable {h : Heap} {id : ObjectId} {slot index : ℕ} {o : Object} {v v' : Value}

/-- A read returns the current identifier of an object. -/
theorem Wf.namesCurrent_canonicalize (hw : h.Wf) (hv : h.Valid v)
    (hread : h.canonicalizeIncrementalCompactionRead v = .ok v') : h.NamesCurrent v' := by
  rw [hw.canonicalize_eq_ok hv] at hread
  cases hread
  cases v with
  | object id =>
    obtain ⟨slot, o, hr⟩ := valid_object.mp hv
    rintro id' heq
    cases heq
    exact ⟨o, hw.storage.lookup_canonical hr⟩
  | _ => exact namesCurrent_of_not_isObject rfl

theorem Wf.namesCurrent_canonicalizeReference (hw : h.Wf) {isRef : Bool}
    (hv : isRef = true → h.Valid v) (hscalar : isRef = false → v.isObject = false)
    (hread : h.canonicalizeReference isRef v = .ok v') : h.NamesCurrent v' := by
  cases isRef with
  | true => exact hw.namesCurrent_canonicalize (hv rfl) hread
  | false =>
    cases hread
    exact namesCurrent_of_not_isObject (hscalar rfl)

/-- A field the bitmap marks is among the marked fields, and one it does not mark is no object. -/
theorem getElem_markedFields {bitmap : String} {scalar : Value → Bool}
    (hscalar : ∀ v, scalar v = true → v.isObject = false) {fields : List Value} {refMap : List Bool}
    (hlength : fields.length = refMap.length) (hshape : referenceMapError bitmap scalar fields refMap = none)
    (hv : fields[index]? = some v) :
    if refMap.getD index false then v ∈ markedFields fields refMap else v.isObject = false := by
  induction fields generalizing refMap index with
  | nil => cases hv
  | cons field fields ih =>
    cases refMap with
    | nil => cases hlength
    | cons isRef refMap =>
      have hrest : referenceMapError bitmap scalar fields refMap = none ∧
          (isRef = false → scalar field = true) := by
        unfold referenceMapError at hshape
        cases isRef with
        | true =>
          refine ⟨?_, fun hfalse => absurd hfalse.symm Bool.false_ne_true⟩
          rw [if_pos rfl] at hshape
          split at hshape
          · exact hshape
          · cases hshape
        | false =>
          rw [if_neg Bool.false_ne_true] at hshape
          split at hshape
          · next hfield => exact ⟨hshape, fun _ => hfield⟩
          · cases hshape
      cases index with
      | zero =>
        cases hv
        cases isRef with
        | true => exact List.mem_cons_self
        | false => exact hscalar v (hrest.2 rfl)
      | succ index =>
        have htail := ih (Nat.succ.inj hlength) hrest.1 hv
        rw [List.getD_cons_succ]
        split at htail
        · next hmarked =>
          rw [if_pos hmarked]
          unfold markedFields
          split
          · exact List.mem_cons_of_mem _ htail
          · exact htail
        · next hunmarked =>
          rw [if_neg hunmarked]
          exact htail

theorem Wf.namesCurrent_loadMarkedField (hw : h.Wf) {bitmap message : String}
    {scalar : Value → Bool} (hscalar : ∀ v, scalar v = true → v.isObject = false)
    {fields : List Value} {refMap : List Bool} (hlength : fields.length = refMap.length)
    (hshape : referenceMapError bitmap scalar fields refMap = none)
    (hvalid : ∀ v ∈ markedFields fields refMap, h.Valid v)
    (hread : h.loadMarkedField fields refMap index message = .ok v) : h.NamesCurrent v := by
  unfold loadMarkedField at hread
  split at hread
  · cases hread
  · next v' hv' =>
    have hfield := getElem_markedFields hscalar hlength hshape hv'
    split at hread
    · next hmarked =>
      rw [if_pos hmarked] at hfield
      exact hw.namesCurrent_canonicalize (hvalid _ hfield) hread
    · next hunmarked =>
      rw [if_neg hunmarked] at hfield
      cases hread
      exact namesCurrent_of_not_isObject hfield

/-- The scalar values of a map are no references. -/
theorem mapEntry_value {m : MapPayload} (hshape : (Payload.map m).DescriptorShape) {entry : MapEntry}
    (hentry : entry ∈ m.entries) (hscalar : m.valueIsRef = false) : entry.value.isObject = false := by
  have hnone : mapEntryError m.keyIsRef m.valueIsRef entry = none :=
    List.findSome?_eq_none_iff.mp hshape entry hentry
  cases hvalue : entry.value with
  | object id =>
    unfold mapEntryError at hnone
    rw [hscalar, hvalue] at hnone
    split at hnone
    · cases hnone
    · split at hnone
      · cases hnone
      · simp [Value.isScalar] at hnone
  | _ => rfl

theorem Wf.namesCurrent_mapKey (hw : h.Wf) {m : MapPayload} (hr : h.resolve id = .ok (slot, o))
    (hp : o.payload = .map m) {entry : MapEntry} (hentry : entry ∈ m.entries)
    (hread : h.canonicalizeReference m.keyIsRef entry.key = .ok v) : h.NamesCurrent v := by
  refine hw.namesCurrent_canonicalizeReference (fun hisRef => ?_) (fun hscalar => ?_) hread
  · refine hw.fields slot o (objectAt_of_resolve hr) _ ?_
    rw [hp]
    refine List.mem_append_left _ (List.mem_flatMap.mpr ⟨entry, hentry, ?_⟩)
    simp [MapEntry.referenceFields, hisRef]
  · have hkey := (mapEntry_key (hp ▸ o.shape) hentry).2 hscalar
    cases hk : entry.key with
    | object id =>
      rw [hk] at hkey
      cases hkey
    | _ => rfl

theorem Wf.namesCurrent_mapValue (hw : h.Wf) {m : MapPayload} (hr : h.resolve id = .ok (slot, o))
    (hp : o.payload = .map m) {entry : MapEntry} (hentry : entry ∈ m.entries)
    (hread : h.canonicalizeReference m.valueIsRef entry.value = .ok v) : h.NamesCurrent v := by
  refine hw.namesCurrent_canonicalizeReference (fun hisRef => ?_)
    (fun hscalar => mapEntry_value (hp ▸ o.shape) hentry hscalar) hread
  refine hw.fields slot o (objectAt_of_resolve hr) _ ?_
  rw [hp]
  refine List.mem_append_left _ (List.mem_flatMap.mpr ⟨entry, hentry, ?_⟩)
  simp [MapEntry.referenceFields, hisRef]

theorem checkedClosure_eq_ok {l f : ℕ} {captures : List Value} {captureMap : List Bool}
    (hok : h.checkedClosure id = .ok (l, f, captures, captureMap)) :
    ∃ slot o, h.resolve id = .ok (slot, o) ∧ o.payload = .closure l f captures captureMap := by
  obtain ⟨⟨slot, o⟩, hr, hrest⟩ := bind_eq_ok.mp hok
  dsimp only at hrest
  split at hrest
  · next hp =>
    cases hrest
    exact ⟨slot, o, hr, hp⟩
  · exact nomatch hrest

theorem checkedVariant_eq_ok {l c : ℕ} {fields : List Value} {caseRefMaps : List (List Bool)}
    (hok : h.checkedVariant id = .ok (l, c, fields, caseRefMaps)) :
    ∃ slot o, h.resolve id = .ok (slot, o) ∧ o.payload = .variant l c fields caseRefMaps := by
  obtain ⟨⟨slot, o⟩, hr, hrest⟩ := bind_eq_ok.mp hok
  dsimp only at hrest
  split at hrest
  · next hp =>
    cases hrest
    exact ⟨slot, o, hr, hp⟩
  · exact nomatch hrest

theorem checkedWeakRef_eq_ok {target : Value} (hok : h.checkedWeakRef id = .ok target) :
    ∃ slot o, h.resolve id = .ok (slot, o) ∧ o.payload = .weakRef target := by
  obtain ⟨⟨slot, o⟩, hr, hrest⟩ := bind_eq_ok.mp hok
  dsimp only at hrest
  split at hrest
  · next hp =>
    cases hrest
    exact ⟨slot, o, hr, hp⟩
  · exact nomatch hrest

theorem closure_shape {l f : ℕ} {captures : List Value} {captureMap : List Bool}
    (hshape : (Payload.closure l f captures captureMap).DescriptorShape) :
    captures.length = captureMap.length ∧
      referenceMapError "closure capture map" (!·.isObject) captures captureMap = none := by
  have hnone : (if captures.length ≠ captureMap.length then
      some "closure descriptor length does not match capture-map payload"
    else referenceMapError "closure capture map" (!·.isObject) captures captureMap) = none := hshape
  split at hnone
  · cases hnone
  · next hlength => exact ⟨not_not.mp hlength, hnone⟩

theorem record_shape {l : ℕ} {fields : List Value} {refMap : List Bool}
    (hshape : (Payload.record l fields refMap).DescriptorShape) : fields.length = refMap.length ∧
      referenceMapError "record reference bitmap" Value.isScalar fields refMap = none := by
  have hnone : (if fields.length ≠ refMap.length then
      some "record descriptor length does not match layout payload"
    else referenceMapError "record reference bitmap" Value.isScalar fields refMap) = none := hshape
  split at hnone
  · cases hnone
  · next hlength => exact ⟨not_not.mp hlength, hnone⟩

theorem variant_shape {l c : ℕ} {fields : List Value} {caseRefMaps : List (List Bool)}
    (hshape : (Payload.variant l c fields caseRefMaps).DescriptorShape) :
    fields.length = (caseRefMaps.getD c []).length ∧
      referenceMapError "variant reference bitmap" Value.isScalar fields (caseRefMaps.getD c []) =
        none := by
  unfold Payload.DescriptorShape Payload.descriptorError at hshape
  cases hc : caseRefMaps[c]? with
  | none => simp [hc] at hshape
  | some refMap =>
    rw [List.getD_eq_getElem?_getD, hc, Option.getD_some]
    simp only [hc] at hshape
    split at hshape
    · cases hshape
    · next hlength => exact ⟨(not_not.mp hlength).symm, hshape⟩

/-- Whatever a load hands to the mutator is current. -/
theorem Wf.namesCurrent_load (hw : h.Wf) (load : Load) (hload : load.run h = .ok (.value v)) :
    h.NamesCurrent v := by
  have hmem : ∀ {id slot o} {v' : Value}, h.resolve id = .ok (slot, o) → v' ∈ o.payload.allFields →
      h.Valid v' := fun hr hv => hw.fields _ _ (objectAt_of_resolve hr) _ hv
  cases load with
  | left id =>
    obtain ⟨v', hv', heq⟩ := map_eq_ok.mp hload
    cases heq
    obtain ⟨⟨slot, o, left, right⟩, hpair, hread⟩ := bind_eq_ok.mp hv'
    obtain ⟨hr, hp⟩ := checkedPair_eq_ok hpair
    refine hw.namesCurrent_canonicalize (hmem hr ?_) hread
    rw [hp]
    exact List.mem_cons_self
  | right id =>
    obtain ⟨v', hv', heq⟩ := map_eq_ok.mp hload
    cases heq
    obtain ⟨⟨slot, o, left, right⟩, hpair, hread⟩ := bind_eq_ok.mp hv'
    obtain ⟨hr, hp⟩ := checkedPair_eq_ok hpair
    refine hw.namesCurrent_canonicalize (hmem hr ?_) hread
    rw [hp]
    exact List.mem_cons_of_mem _ List.mem_cons_self
  | refArrayGet id index =>
    obtain ⟨v', hv', heq⟩ := map_eq_ok.mp hload
    cases heq
    obtain ⟨⟨slot, o, elements⟩, harray, hread⟩ := bind_eq_ok.mp hv'
    obtain ⟨hr, hp⟩ := checkedRefArray_eq_ok harray
    dsimp only at hread
    split at hread
    · next element helement =>
      refine hw.namesCurrent_canonicalize (hmem hr ?_) hread
      rw [hp]
      exact List.mem_append_left _ (List.mem_of_getElem? helement)
    · cases hread
  | closureCapture id index =>
    obtain ⟨v', hv', heq⟩ := map_eq_ok.mp hload
    cases heq
    obtain ⟨⟨l, f, captures, captureMap⟩, hclosure, hread⟩ := bind_eq_ok.mp hv'
    obtain ⟨slot, o, hr, hp⟩ := checkedClosure_eq_ok hclosure
    obtain ⟨hlength, hshape⟩ := closure_shape (hp ▸ o.shape)
    refine hw.namesCurrent_loadMarkedField (fun v hv => by simpa using hv) hlength hshape
      (fun v hv => hmem hr ?_) hread
    rw [hp]
    exact List.mem_append_left _ hv
  | recordGet id index =>
    obtain ⟨v', hv', heq⟩ := map_eq_ok.mp hload
    cases heq
    obtain ⟨⟨slot, o, l, fields, refMap⟩, hrecord, hread⟩ := bind_eq_ok.mp hv'
    obtain ⟨hr, hp⟩ := checkedRecord_eq_ok hrecord
    obtain ⟨hlength, hshape⟩ := record_shape (hp ▸ o.shape)
    refine hw.namesCurrent_loadMarkedField (fun _ => isObject_of_isScalar) hlength hshape
      (fun v hv => hmem hr ?_) hread
    rw [hp]
    exact List.mem_append_left _ hv
  | variantGet id index =>
    obtain ⟨v', hv', heq⟩ := map_eq_ok.mp hload
    cases heq
    obtain ⟨⟨l, c, fields, caseRefMaps⟩, hvariant, hread⟩ := bind_eq_ok.mp hv'
    obtain ⟨slot, o, hr, hp⟩ := checkedVariant_eq_ok hvariant
    obtain ⟨hlength, hshape⟩ := variant_shape (hp ▸ o.shape)
    refine hw.namesCurrent_loadMarkedField (fun _ => isObject_of_isScalar) hlength hshape
      (fun v hv => hmem hr ?_) hread
    rw [hp]
    exact List.mem_append_left _ hv
  | mapGet id key =>
    obtain ⟨v', hv', heq⟩ := map_eq_ok.mp hload
    cases heq
    obtain ⟨found, hfound, hrest⟩ := bind_eq_ok.mp hv'
    cases found with
    | none => cases hrest
    | some entry =>
      obtain ⟨⟨slot, o, m⟩, hmap, hread⟩ := bind_eq_ok.mp hrest
      obtain ⟨hr, hp⟩ := checkedMap_eq_ok hmap
      dsimp only at hread
      cases hentry : m.entries[entry]? with
      | none =>
        rw [hentry] at hread
        exact hw.namesCurrent_canonicalizeReference (fun _ => valid_of_not_isObject rfl)
          (fun _ => rfl) hread
      | some e =>
        rw [hentry] at hread
        exact hw.namesCurrent_mapValue hr hp (List.mem_of_getElem? hentry) hread
  | mapKeyAt id index =>
    obtain ⟨v', hv', heq⟩ := map_eq_ok.mp hload
    cases heq
    obtain ⟨⟨slot, o, m⟩, hmap, hread⟩ := bind_eq_ok.mp hv'
    obtain ⟨hr, hp⟩ := checkedMap_eq_ok hmap
    dsimp only at hread
    split at hread
    · cases hread
    · next entry hentry => exact hw.namesCurrent_mapKey hr hp (List.mem_of_getElem? hentry) hread
  | mapValueAt id index =>
    obtain ⟨v', hv', heq⟩ := map_eq_ok.mp hload
    cases heq
    obtain ⟨⟨slot, o, m⟩, hmap, hread⟩ := bind_eq_ok.mp hv'
    obtain ⟨hr, hp⟩ := checkedMap_eq_ok hmap
    dsimp only at hread
    split at hread
    · cases hread
    · next entry hentry => exact hw.namesCurrent_mapValue hr hp (List.mem_of_getElem? hentry) hread
  | weakGet id =>
    obtain ⟨v', hv', heq⟩ := map_eq_ok.mp hload
    cases heq
    obtain ⟨target, hweak, hread⟩ := bind_eq_ok.mp hv'
    obtain ⟨slot, o, hr, hp⟩ := checkedWeakRef_eq_ok hweak
    refine hw.namesCurrent_canonicalize (hmem hr ?_) hread
    rw [hp]
    exact List.mem_cons_self
  | ephemeronKey id =>
    obtain ⟨v', hv', heq⟩ := map_eq_ok.mp hload
    cases heq
    obtain ⟨⟨slot, o, key, value, valueIsRef⟩, hephemeron, hread⟩ := bind_eq_ok.mp hv'
    obtain ⟨hr, hp⟩ := checkedEphemeron_eq_ok hephemeron
    refine hw.namesCurrent_canonicalize (hmem hr ?_) hread
    rw [hp]
    exact List.mem_cons_self
  | ephemeronValue id =>
    obtain ⟨v', hv', heq⟩ := map_eq_ok.mp hload
    cases heq
    obtain ⟨⟨slot, o, key, value, valueIsRef⟩, hephemeron, hread⟩ := bind_eq_ok.mp hv'
    obtain ⟨hr, hp⟩ := checkedEphemeron_eq_ok hephemeron
    refine hw.namesCurrent_canonicalizeReference (fun hisRef => hmem hr ?_) (fun hscalar => ?_) hread
    · rw [hp]
      simp [Payload.allFields, Payload.referenceFields, Payload.weakFields, hisRef]
    · have hshape : (Payload.ephemeron key value valueIsRef).DescriptorShape := hp ▸ o.shape
      cases value with
      | object target => cases key <;> simp [Payload.DescriptorShape, Payload.descriptorError,
          hscalar, Value.isScalar, Value.isReference] at hshape
      | _ => rfl
  | _ =>
    obtain ⟨_, -, heq⟩ := map_eq_ok.mp hload
    cases heq

end Loads

end Heap

end LanguageRuntime.Gc
