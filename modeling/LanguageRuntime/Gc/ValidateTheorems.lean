import LanguageRuntime.Gc.UpdateTheorems

/-!
# The validators accept a well-formed heap

The checks that surround every collection never fail on a heap with the representation
invariant.
-/

namespace LanguageRuntime.Gc

open LanguageRuntime LanguageRuntime.Library

namespace Heap

variable {h : Heap}

/-! ## The storage layout -/

/-- The slot lies in the run of an object with a base below `bound`. -/
def CoveredBelow (h : Heap) (bound slot : ℕ) : Prop :=
  ∃ base o, base < bound ∧ h.objectAt base = some o ∧ base ≤ slot ∧ slot < base + o.width

theorem Storage.not_coveredBelow (hst : h.Storage) {slot base : ℕ} {o : Object}
    (ho : h.objectAt base = some o) (hbase : base ≤ slot) : ¬h.CoveredBelow base slot := by
  rintro ⟨base', o', hlt, ho', -, hrun⟩
  have := hst.disjoint base' base o' o hlt ho' ho
  omega

/-- The slots of one run are covered one after the other. -/
theorem Storage.coverSlots_eq_ok (hst : h.Storage) {base : ℕ} {o : Object} {covered : List Bool}
    (ho : h.objectAt base = some o) (hlength : covered.length = h.objects.length)
    (hcovered : ∀ slot, covered.getD slot false = true ↔ h.CoveredBelow base slot) :
    Yields ((List.range o.width).foldlM (h.coverSlot base) covered)
      (fun covered' => covered'.length = h.objects.length ∧
        ∀ slot, covered'.getD slot false = true ↔ h.CoveredBelow (base + 1) slot)
      fun _ => False := by
  have hinside := hst.inside base o ho
  have hloop := yields_foldlM_range (n := o.width) (b := covered) (f := h.coverSlot base)
    (E := fun _ => False) (P := fun offset (covered' : List Bool) =>
      covered'.length = h.objects.length ∧ ∀ slot, covered'.getD slot false = true ↔
        h.CoveredBelow base slot ∨ base ≤ slot ∧ slot < base + offset) ?_ ?_
  · refine hloop.mono (fun covered' hcovered' => ⟨hcovered'.1, fun slot => ?_⟩) fun _ he => he
    rw [hcovered'.2]
    constructor
    · rintro (⟨base', o', hlt, hrest⟩ | ⟨hle, hlt⟩)
      · exact ⟨base', o', Nat.lt_succ_of_lt hlt, hrest⟩
      · exact ⟨base, o, Nat.lt_succ_self _, ho, hle, hlt⟩
    · rintro ⟨base', o', hlt, ho', hle, hslot⟩
      by_cases heq : base' = base
      · subst heq
        rw [ho] at ho'
        cases ho'
        exact .inr ⟨hle, hslot⟩
      · exact .inl ⟨base', o', by omega, ho', hle, hslot⟩
  · refine ⟨hlength, fun slot => ?_⟩
    rw [hcovered]
    exact ⟨.inl, fun h => h.resolve_right fun hrun => by omega⟩
  · intro offset covered' hoffset ⟨hlength', hcovered'⟩
    have hfree : covered'.getD (base + offset) false = false := by
      rw [← Bool.not_eq_true, hcovered']
      rintro (hbelow | ⟨-, hlt⟩)
      · exact hst.not_coveredBelow ho (by omega) hbelow
      · omega
    have hheader : ¬(offset ≠ 0 ∧ (h.objectAt (base + offset)).isSome = true) := by
      rintro ⟨hne, hsome⟩
      obtain ⟨o', ho'⟩ := Option.isSome_iff_exists.mp hsome
      have := hst.disjoint base (base + offset) o o' (by omega) ho ho'
      omega
    unfold coverSlot
    rw [if_neg (by rw [hfree]; exact Bool.false_ne_true), if_neg hheader]
    refine ⟨by rw [List.length_set]; exact hlength', fun slot => ?_⟩
    rw [getD_set]
    split
    · next heq =>
      obtain ⟨rfl, -⟩ := heq
      exact iff_of_true rfl (.inr ⟨by omega, by omega⟩)
    · next hne =>
      rw [hcovered']
      refine or_congr_right ⟨fun hslot => by omega, fun hslot => ⟨hslot.1, ?_⟩⟩
      by_contra hge
      exact hne ⟨by omega, by omega⟩

theorem validateHeapStorageLayout_eq_ok (hst : h.Storage)
    (hmaps : ∀ slot o m, h.objectAt slot = some o → o.payload = .map m → h.IndexedMap m) :
    h.validateHeapStorageLayout = .ok () := by
  have hloop := yields_foldlM_range (n := h.objects.length) (f := h.coverObject)
    (b := List.replicate h.objects.length false) (E := fun _ => False)
    (P := fun bound (covered : List Bool) => covered.length = h.objects.length ∧
      ∀ slot, covered.getD slot false = true ↔ h.CoveredBelow bound slot) ?_ ?_
  · obtain ⟨covered, hok, -⟩ := hloop.exists_ok
    unfold validateHeapStorageLayout
    rw [hok]
    rfl
  · refine ⟨List.length_replicate, fun slot => ?_⟩
    rw [getD_replicate_default]
    refine iff_of_false Bool.false_ne_true ?_
    rintro ⟨base, o, hlt, -⟩
    omega
  · intro base covered hbase ⟨hlength, hcovered⟩
    unfold coverObject
    split
    · next hnone =>
      refine ⟨hlength, fun slot => ?_⟩
      rw [hcovered]
      constructor
      · rintro ⟨base', o', hlt, hrest⟩
        exact ⟨base', o', Nat.lt_succ_of_lt hlt, hrest⟩
      · rintro ⟨base', o', hlt, ho', hrest⟩
        refine ⟨base', o', Nat.lt_of_le_of_ne (Nat.le_of_lt_succ hlt) ?_, ho', hrest⟩
        rintro rfl
        exact nomatch hnone.symm.trans ho'
    · next o ho =>
      have hinside := hst.inside base o ho
      have hpos := o.width_pos
      have hfree : covered.getD base false = false := by
        rw [← Bool.not_eq_true, hcovered]
        exact hst.not_coveredBelow ho le_rfl
      have hfits : ¬(o.width = 0 ∨ h.objects.length < base + o.width) := by omega
      simp only [hfree, Bool.false_eq_true, if_false]
      split
      · next m hp =>
        obtain ⟨hcapacity, hindex⟩ := hmaps base o m ho hp
        rw [validateMapLookupIndex_eq_ok hcapacity hindex, ok_bind, if_neg hfits]
        exact hst.coverSlots_eq_ok ho hlength hcovered
      · rw [if_neg hfits]
        exact hst.coverSlots_eq_ok ho hlength hcovered

/-! ## The remembered set -/

theorem validateRememberedSet_eq_ok (hr : h.Remembers)
    (hfields : ∀ slot o, h.objectAt slot = some o → ∀ value ∈ o.payload.referenceFields,
      h.Valid value) : h.validateRememberedSet = .ok () := by
  unfold validateRememberedSet
  refine bind_eq_ok.mpr ⟨(), forM_eq_ok.mpr fun id hid => ?_, forM_eq_ok.mpr fun slot _ => ?_⟩
  · obtain ⟨o, ho, hold⟩ := hr.old id hid
    rw [resolve_of_lookup ho, ok_bind]
    simp only [hold, Bool.not_true, Bool.false_eq_true, if_false]
    rfl
  split
  · next o ho =>
    split
    · next hold =>
      refine forM_eq_ok.mpr fun value hvalue => ?_
      unfold validateRememberedField
      split
      · next id =>
        obtain ⟨slot', target, hres⟩ := valid_object.mp (hfields slot o ho _ hvalue)
        rw [hres, ok_bind]
        have hmissing : ¬(target.isYoung && !h.rememberedSet.contains (h.currentId slot)) = true := by
          simp only [Bool.and_eq_true, not_and, Bool.not_eq_true']
          intro hyoung hnot
          have hmem := hr.complete slot o ho hold id hvalue ⟨slot', target, hres, hyoung⟩
          rw [List.contains_eq_mem, decide_eq_false_iff_not] at hnot
          exact hnot hmem
        simp only [hmissing]
        rfl
      · rfl
    · rfl
  · rfl

/-! ## The registries -/

/-- A walk over the slots that matches a registry entry at every object of the kind. -/
theorem IsRegistry.walk_eq_ok {kind : ObjectKind} {registry : List ObjectId} (hst : h.Storage)
    (hr : h.IsRegistry kind registry)
    {f : List ObjectId × Option ℕ → ℕ → Except HeapError (List ObjectId × Option ℕ)}
    (hskip : ∀ slot state, (∀ o, h.objectAt slot = some o → o.payload.kind ≠ kind) →
      f state slot = .ok state)
    (hmatch : ∀ slot o rest previous, h.objectAt slot = some o → o.payload.kind = kind →
      (∀ p, previous = some p → p < slot) →
        f (h.currentId slot :: rest, previous) slot = .ok (rest, some slot)) :
    ∃ previous, (List.range h.objects.length).foldlM f (registry, none) = .ok ([], previous) := by
  have hloop := yields_foldlM_range (n := h.objects.length) (f := f) (b := (registry, none))
    (E := fun _ => False) (P := fun bound (state : List ObjectId × Option ℕ) =>
      state.1.Pairwise (·.slot < ·.slot) ∧ (∀ id, id ∈ state.1 ↔ id ∈ registry ∧ bound ≤ id.slot) ∧
        ∀ p, state.2 = some p → p < bound) ?_ ?_
  · obtain ⟨⟨rest, previous⟩, hok, -, hrest, -⟩ := hloop.exists_ok
    have hempty : rest = [] := by
      refine List.eq_nil_iff_forall_not_mem.mpr fun id hid => ?_
      obtain ⟨hmem, hge⟩ := (hrest id).mp hid
      obtain ⟨o, ho, -⟩ := (hr.mem id).mp hmem
      have := lt_length_of_objectAt (objectAt_of_lookup ho)
      omega
    exact ⟨previous, by rw [hok, hempty]⟩
  · exact ⟨hr.ordered, fun id => ⟨fun hid => ⟨hid, Nat.zero_le _⟩, fun hid => hid.1⟩, nofun⟩
  · rintro slot ⟨rest, previous⟩ hslot ⟨hordered, hrest, hprevious⟩
    by_cases hkind : ∃ o, h.objectAt slot = some o ∧ o.payload.kind = kind
    · obtain ⟨o, ho, hk⟩ := hkind
      have hl := hst.lookup_currentId ho
      have hcurrent : (h.currentId slot).slot = slot := by rw [hst.currentId_eq ho]
      have hmem : h.currentId slot ∈ rest :=
        (hrest _).mpr ⟨(hr.mem _).mpr ⟨o, hl, hk⟩, hcurrent.ge⟩
      cases rest with
      | nil => exact absurd hmem List.not_mem_nil
      | cons head tail =>
        obtain ⟨hhead, htail⟩ := List.pairwise_cons.mp hordered
        -- the first entry left is the one of this slot
        have heq : head = h.currentId slot := by
          rcases List.mem_cons.mp hmem with heq | hmem
          · exact heq.symm
          · have hlt := hhead _ hmem
            have hge := ((hrest head).mp List.mem_cons_self).2
            omega
        subst heq
        rw [hmatch slot o tail previous ho hk hprevious]
        refine ⟨htail, fun id => ?_, fun p hp => ?_⟩
        · constructor
          · intro hid
            have hlt := hhead id hid
            exact ⟨((hrest id).mp (List.mem_cons_of_mem _ hid)).1, by omega⟩
          · rintro ⟨hid, hge⟩
            rcases List.mem_cons.mp ((hrest id).mpr ⟨hid, by omega⟩) with rfl | hmem
            · omega
            · exact hmem
        · cases hp
          exact Nat.lt_succ_self _
    · rw [hskip slot _ fun o ho hk => hkind ⟨o, ho, hk⟩]
      refine ⟨hordered, fun id => ?_, fun p hp => Nat.lt_succ_of_lt (hprevious p hp)⟩
      rw [hrest]
      refine and_congr_right fun hid => ⟨fun hge => ?_, fun hge => by omega⟩
      have hne : id.slot ≠ slot := by
        rintro rfl
        obtain ⟨o, ho, hk⟩ := (hr.mem id).mp hid
        exact hkind ⟨o, objectAt_of_lookup ho, hk⟩
      omega

/-- The previous entry of a registry walk does not stop it. -/
theorem not_any_le {slot : ℕ} {previous : Option ℕ} (h : ∀ p, previous = some p → p < slot) :
    (previous.any fun p => decide (slot ≤ p)) = false := by
  cases previous with
  | none => rfl
  | some p => simpa using h p rfl

theorem validateWeakTargets_eq_ok (hst : h.Storage) (hr : h.IsRegistry .weakRef h.weakRefs)
    (hfields : ∀ slot o, h.objectAt slot = some o → ∀ value ∈ o.payload.allFields,
      h.Valid value) : h.validateWeakTargets = .ok () := by
  have hwalk := hr.walk_eq_ok hst (f := h.validateWeakTarget) ?_ ?_
  · obtain ⟨previous, hok⟩ := hwalk
    unfold validateWeakTargets
    rw [hok]
    rfl
  · intro slot state hkind
    unfold validateWeakTarget
    split
    · next ho => exact absurd rfl (hkind _ ho)
    · rfl
  · intro slot o rest previous ho hk hprevious
    have hcurrent : (h.currentId slot).slot = slot := by rw [hst.currentId_eq ho]
    have hchecked : h.checkedSlot (h.currentId slot) = .ok slot :=
      checkedSlot_eq_ok.mpr ⟨o, hst.resolve_currentId ho⟩
    obtain ⟨marked, generation, payload, shape, serial⟩ := o
    cases payload with
    | weakRef target =>
      have htarget : h.validateValue target = .ok () :=
        validateValue_eq_ok.mpr (hfields slot _ ho _ (by simp [Payload.allFields, Payload.weakFields]))
      unfold validateWeakTarget
      simp only [ho, hcurrent, hchecked, ok_bind, not_any_le hprevious, htarget]
      simp
    | _ => cases hk

theorem validateEphemerons_eq_ok (hst : h.Storage) (hr : h.IsRegistry .ephemeron h.ephemerons)
    (hfields : ∀ slot o, h.objectAt slot = some o → ∀ value ∈ o.payload.allFields,
      h.Valid value) : h.validateEphemerons = .ok () := by
  have hwalk := hr.walk_eq_ok hst (f := h.validateEphemeron) ?_ ?_
  · obtain ⟨previous, hok⟩ := hwalk
    unfold validateEphemerons
    rw [hok]
    rfl
  · intro slot state hkind
    unfold validateEphemeron
    split
    · next ho => exact absurd rfl (hkind _ ho)
    · rfl
  · intro slot o rest previous ho hk hprevious
    have hcurrent : (h.currentId slot).slot = slot := by rw [hst.currentId_eq ho]
    have hchecked : h.checkedSlot (h.currentId slot) = .ok slot :=
      checkedSlot_eq_ok.mpr ⟨o, hst.resolve_currentId ho⟩
    obtain ⟨marked, generation, payload, shape, serial⟩ := o
    cases payload with
    | ephemeron key value valueIsRef =>
      have hkey : h.validateValue key = .ok () :=
        validateValue_eq_ok.mpr (hfields slot _ ho _ (by simp [Payload.allFields, Payload.weakFields]))
      unfold validateEphemeron
      simp only [ho, hcurrent, hchecked, ok_bind, not_any_le hprevious, hkey]
      cases valueIsRef with
      | false => simp
      | true =>
        have hvalue : h.validateValue value = .ok () := validateValue_eq_ok.mpr
          (hfields slot _ ho _ (by simp [Payload.allFields, Payload.weakFields]))
        simp [hvalue]
    | _ => cases hk

/-! ## The intern table -/

theorem checkedString_of_stringAt {id : ObjectId} {bytes : List UInt8} (hb : h.StringAt id bytes) :
    h.checkedString id = .ok bytes :=
  let ⟨o, ho, hp⟩ := hb
  checkedString_eq_ok.mpr ⟨id.slot, o, resolve_of_lookup ho, hp⟩

theorem validateInternEntry_eq_ok (hi : h.Interns) {prior rest : List InternEntry}
    {entry : InternEntry} (htable : prior ++ entry :: rest = h.internTable) :
    h.validateInternEntry prior entry = .ok () := by
  have hentry : entry ∈ h.internTable := htable ▸ by simp
  obtain ⟨bytes, hb, hhash⟩ := hi.hashed entry hentry
  obtain ⟨o, ho, hp⟩ := hb
  have hordered := hi.ordered
  rw [← htable, List.pairwise_append] at hordered
  have hbefore : ∀ previous ∈ prior, previous.canonical.slot < entry.canonical.slot :=
    fun previous hprevious => hordered.2.2 previous hprevious entry List.mem_cons_self
  have hlast : (prior.getLast?.any fun previous =>
      decide (entry.canonical.slot ≤ previous.canonical.slot)) = false := by
    cases hl : prior.getLast? with
    | none => rfl
    | some previous =>
      have := hbefore previous (List.mem_of_getLast? hl)
      simpa using this
  have hloop : (prior.forM fun previous => do
      if previous.contentHash = entry.contentHash then
        if ← h.stringEqual previous.canonical entry.canonical then
          throw (HeapError.logicError "intern table contains duplicate canonical bytes")) =
      .ok () := by
    refine forM_eq_ok.mpr fun previous hprevious => ?_
    split
    · have hprior : previous ∈ h.internTable := htable ▸ List.mem_append_left _ hprevious
      obtain ⟨bytes', hb', -⟩ := hi.hashed previous hprior
      have hne : bytes' ≠ bytes := by
        rintro rfl
        have heq := hi.distinct previous hprior entry hentry bytes' hb' ⟨o, ho, hp⟩
        have hlt := hbefore previous hprevious
        rw [heq] at hlt
        omega
      unfold stringEqual
      rw [checkedString_of_stringAt hb', checkedString_of_stringAt ⟨o, ho, hp⟩]
      simp [hne]
    · rfl
  unfold validateInternEntry
  simp only [resolve_of_lookup ho, hlast, checkedString_of_stringAt ⟨o, ho, hp⟩, hhash, hp,
    Payload.kind, ok_bind]
  simpa [hhash] using hloop

theorem validateInternTable_eq_ok (hi : h.Interns) : h.validateInternTable = .ok () := by
  have hloop : ∀ rest prior, prior ++ rest = h.internTable →
      h.validateInternEntries prior rest = .ok () := by
    intro rest
    induction rest with
    | nil => exact fun _ _ => rfl
    | cons entry rest ih =>
      intro prior htable
      unfold validateInternEntries
      rw [validateInternEntry_eq_ok hi htable, ok_bind]
      exact ih _ (by simpa using htable)
  exact hloop h.internTable [] rfl

/-! ## All validators -/

theorem Sound.validateBeforeCollection_eq_ok (hs : h.Sound) : h.validateBeforeCollection = .ok () := by
  unfold validateBeforeCollection
  rw [validateHeapStorageLayout_eq_ok hs.storage hs.maps,
    validateRememberedSet_eq_ok hs.remembers
      fun slot o ho value hvalue => hs.fields slot o ho value (List.mem_append_left _ hvalue),
    validateWeakTargets_eq_ok hs.storage hs.weakRefs hs.fields, validateInternTable_eq_ok hs.interns,
    validateEphemerons_eq_ok hs.storage hs.ephemerons hs.fields]
  rfl

theorem Sound.validateAfterCollection_eq_ok (hs : h.Sound) {extraRoots : List Value}
    (hextra : ∀ value ∈ extraRoots, h.Valid value) :
    h.validateAfterCollection extraRoots = .ok () := by
  have hroots : (h.traceCollectionRoots extraRoots).forM h.validateValue = .ok () := by
    refine forM_eq_ok.mpr fun value hvalue => validateValue_eq_ok.mpr ?_
    simp only [Heap.traceCollectionRoots, List.mem_append, List.mem_map] at hvalue
    rcases hvalue with (hvalue | ⟨root, hroot, rfl⟩) | hvalue
    · exact hs.cells value hvalue
    · exact hs.handles root hroot
    · exact hextra value hvalue
  have hrest := hs.validateBeforeCollection_eq_ok
  unfold validateBeforeCollection at hrest
  obtain ⟨_, hstorage, hrest⟩ := bind_eq_ok.mp hrest
  unfold validateAfterCollection
  refine bind_eq_ok.mpr ⟨(), hstorage, bind_eq_ok.mpr ⟨(), hroots,
    bind_eq_ok.mpr ⟨(), forM_eq_ok.mpr fun slot hslot => ?_, hrest⟩⟩⟩
  cases slot with
  | none => rfl
  | some o =>
    obtain ⟨i, hi, hget⟩ := List.getElem_of_mem hslot
    have ho : h.objectAt i = some o := by
      rw [objectAt, List.getD_eq_getElem _ _ hi, hget]
    exact forM_eq_ok.mpr fun value hvalue =>
      validateValue_eq_ok.mpr (hs.fields i o ho value (List.mem_append_left _ hvalue))

end Heap

end LanguageRuntime.Gc
