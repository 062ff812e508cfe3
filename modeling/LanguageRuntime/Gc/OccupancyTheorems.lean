import LanguageRuntime.Gc.AllocateTheorems
import Mathlib.Order.Bounds.Basic

/-!
# First fit and slot occupancy

The allocator's walk over the descriptor widths finds the lowest run of slots that an independent
scan of all headers reports free, so that an allocation overlaps no object and extends the slot
vector only where there is no such run.
-/

namespace LanguageRuntime.Gc

open LanguageRuntime LanguageRuntime.Library

namespace Heap

/-- The scan of the headers reports each of the `required` slots from `slot` on free. -/
def SlotsFree (h : Heap) (required slot : ℕ) : Prop :=
  ∀ offset < required, h.isStorageSlotFree (slot + offset) = true

section SlotsFree

variable {h : Heap} {required fuel base start length slot : ℕ}

/-- A slot is free when it exists and lies in the run of no object. -/
theorem isStorageSlotFree_iff : h.isStorageSlotFree slot = true ↔ slot < h.objects.length ∧
    ∀ base o, h.objectAt base = some o → base + o.width ≤ slot ∨ slot < base := by
  simp only [isStorageSlotFree, Bool.and_eq_true, decide_eq_true_eq, List.all_eq_true,
    List.mem_range, Option.isNone_iff_eq_none]
  constructor
  · rintro ⟨⟨hslot, hnone⟩, hall⟩
    refine ⟨hslot, fun base o ho => ?_⟩
    have hbase := hall base (lt_length_of_objectAt ho)
    rw [ho] at hbase
    have hne : base ≠ slot := by
      rintro rfl
      rw [hnone] at ho
      cases ho
    simp only [Bool.not_eq_true', Bool.and_eq_false_iff, decide_eq_false_iff_not] at hbase
    omega
  · rintro ⟨hslot, hclear⟩
    refine ⟨⟨hslot, ?_⟩, fun base _ => ?_⟩
    · cases ho : h.objectAt slot with
      | none => rfl
      | some o =>
        have hpos := o.width_pos
        have hapart := hclear slot o ho
        omega
    · cases ho : h.objectAt base with
      | none => rfl
      | some o =>
        have hapart := hclear base o ho
        simp only [Bool.not_eq_true', Bool.and_eq_false_iff, decide_eq_false_iff_not]
        omega

/-- The runs that overlap no object are those whose slots the scan reports free. -/
theorem slotsFree_iff_freeRun (hrequired : 0 < required) :
    h.SlotsFree required slot ↔ h.FreeRun slot required := by
  constructor
  · intro hfree
    refine ⟨?_, fun base o ho => ?_⟩
    · have hlast := (isStorageSlotFree_iff.mp (hfree (required - 1) (by omega))).1
      omega
    · by_contra hoverlap
      have hpos := o.width_pos
      -- the first slot that the run and the object share
      have hshared := hfree (max slot base - slot) (by omega)
      have hapart := (isStorageSlotFree_iff.mp hshared).2 base o ho
      omega
  · intro hrun offset hoffset
    have hinside := hrun.inside
    refine isStorageSlotFree_iff.mpr ⟨by omega, fun base o ho => ?_⟩
    have hclear := hrun.clear base o ho
    omega

/-! ## The walk -/

/-- No free run starts behind the run that the walk is in, or behind its cursor. -/
theorem freeRunLoop_least (hlength : length < required) (hfuel : h.objects.length ≤ base + fuel)
    (hrun : length ≠ 0 → start + length = base)
    (hleast : ∀ s, h.FreeRun s required → (if length = 0 then base else start) ≤ s) :
    match h.freeRunLoop required fuel base start length with
    | some slot => ∀ s, h.FreeRun s required → slot ≤ s
    | none => ∀ s, ¬h.FreeRun s required := by
  -- a cursor past the last slot has passed every free run
  have hpast : ¬base < h.objects.length → ∀ s, ¬h.FreeRun s required := by
    intro hbase s hs
    have hinside := hs.inside
    have hle := hleast s hs
    split at hle
    · omega
    · next hne =>
      have hstart := hrun hne
      omega
  induction fuel generalizing base start length with
  | zero => exact hpast (by omega)
  | succ fuel ih =>
    unfold freeRunLoop
    by_cases hbase : base < h.objects.length
    · rw [if_pos hbase]
      cases ho : h.objectAt base with
      | some o =>
        have hpos := o.width_pos
        have hskip : ∀ s, h.FreeRun s required →
            (if (0 : ℕ) = 0 then base + o.width else start) ≤ s := by
          intro s hs
          rw [if_pos rfl]
          have hclear := hs.clear base o ho
          have hle := hleast s hs
          -- a run that starts before the object would have to end before it
          split at hle
          · omega
          · next hne =>
            have hstart := hrun hne
            omega
        have hno : (0 : ℕ) ≠ 0 → start + 0 = base + o.width := fun hne => absurd rfl hne
        apply ih (by omega) (by omega) hno hskip
        intro hend s hs
        have hle := hskip s hs
        have hinside := hs.inside
        rw [if_pos rfl] at hle
        omega
      | none =>
        have hreaches : (if length = 0 then base else start) + (length + 1) = base + 1 := by
          split
          · omega
          · next hne =>
            have hstart := hrun hne
            omega
        dsimp only
        by_cases hdone : length + 1 = required
        · rw [if_pos hdone]
          exact hleast
        · rw [if_neg hdone]
          have hleast' : ∀ s, h.FreeRun s required →
              (if length + 1 = 0 then base + 1 else if length = 0 then base else start) ≤ s := by
            intro s hs
            rw [if_neg (Nat.succ_ne_zero _)]
            exact hleast s hs
          apply ih (by omega) (by omega) (fun _ => hreaches) hleast'
          intro hend s hs
          have hle := hleast s hs
          have hinside := hs.inside
          omega
    · rw [if_neg hbase]
      exact hpast hbase

theorem findFreeStorageRun_least (hrequired : 0 < required) :
    match h.findFreeStorageRun required with
    | some slot => ∀ s, h.FreeRun s required → slot ≤ s
    | none => ∀ s, ¬h.FreeRun s required := by
  apply freeRunLoop_least hrequired (by omega) fun hne => absurd rfl hne
  intro s _
  rw [if_pos rfl]
  exact Nat.zero_le s

/-- The walk finds the lowest of the runs that the scan reports free. -/
theorem StorageRuns.findFreeStorageRun_eq_some_iff (hr : h.StorageRuns) (hrequired : 0 < required) :
    h.findFreeStorageRun required = some slot ↔ IsLeast {s | h.SlotsFree required s} slot := by
  have hleast := h.findFreeStorageRun_least hrequired
  constructor
  · intro hfind
    rw [hfind] at hleast
    have hfree := hr.freeRun_of_find hrequired hfind
    exact ⟨(slotsFree_iff_freeRun hrequired).mpr hfree,
      fun s hs => hleast s ((slotsFree_iff_freeRun hrequired).mp hs)⟩
  · rintro ⟨hslot, hlower⟩
    have hrun := (slotsFree_iff_freeRun hrequired).mp hslot
    cases hfind : h.findFreeStorageRun required with
    | none =>
      rw [hfind] at hleast
      exact absurd hrun (hleast slot)
    | some found =>
      rw [hfind] at hleast
      have hfree := hr.freeRun_of_find hrequired hfind
      have hle := hleast slot hrun
      have hge := hlower ((slotsFree_iff_freeRun hrequired).mpr hfree)
      exact congrArg some (Nat.le_antisymm hle hge)

theorem StorageRuns.findFreeStorageRun_eq_none_iff (hr : h.StorageRuns) (hrequired : 0 < required) :
    h.findFreeStorageRun required = none ↔ ¬∃ s, h.SlotsFree required s := by
  have hleast := h.findFreeStorageRun_least hrequired
  constructor
  · rintro hfind ⟨s, hs⟩
    rw [hfind] at hleast
    exact hleast s ((slotsFree_iff_freeRun hrequired).mp hs)
  · intro hnone
    cases hfind : h.findFreeStorageRun required with
    | none => rfl
    | some found =>
      have hfree := hr.freeRun_of_find hrequired hfind
      exact absurd ⟨found, (slotsFree_iff_freeRun hrequired).mpr hfree⟩ hnone

end SlotsFree

/-! ## Allocation -/

/-- `h'` is `h` with one more object, `width` slots wide: it overlaps no other object, and the slot
vector has grown only if no run of free slots was wide enough. -/
structure AllocatesRun (h : Heap) (width : ℕ) (h' : Heap) : Prop where
  runs : h'.StorageRuns
  placed : ∃ base o, h'.objectAt base = some o ∧ o.width = width ∧ h.objectAt base = none ∧
    (∀ slot o', h.objectAt slot = some o' → slot + o'.width ≤ base ∨ base + width ≤ slot) ∧
    ∀ slot ≠ base, h'.objectAt slot = h.objectAt slot
  fits : (∃ slot, h.SlotsFree width slot) → h'.objects.length = h.objects.length
  grows : (¬∃ slot, h.SlotsFree width slot) → h'.objects.length = h.objects.length + width

section Allocation

variable {h h' : Heap} {required base slot generation : ℕ} {d : Descriptor}

theorem StorageRuns.resize (hr : h.StorageRuns) (size : ℕ) : (h.resize size).StorageRuns where
  inside slot o ho := by
    rw [objectAt_resize] at ho
    rw [length_objects_resize]
    have hinside := hr.inside slot o ho
    omega
  disjoint slot slot' o o' hlt ho ho' := by
    rw [objectAt_resize] at ho ho'
    exact hr.disjoint slot slot' o o' hlt ho ho'

/-- Where the allocator puts an object is free, and the vector grows only if nothing else is. -/
theorem wp_reserveStorageRun_fits (hr : h.StorageRuns) (hrequired : 0 < required) :
    wp (reserveStorageRun required)
      (fun base h' => h'.FreeRun base required ∧ (∃ size, h' = h.resize size) ∧
        ((∃ s, h.SlotsFree required s) → h' = h) ∧
        ((¬∃ s, h.SlotsFree required s) → h'.objects.length = h.objects.length + required))
      (fun _ h' => h' = h ∧ ¬∃ s, h.SlotsFree required s) h := by
  have hnone := hr.findFreeStorageRun_eq_none_iff hrequired
  unfold reserveStorageRun
  rw [wp_bind, wp_get]
  split
  · next base hbase =>
    have hsome : ∃ s, h.SlotsFree required s :=
      ⟨base, ((hr.findFreeStorageRun_eq_some_iff hrequired).mp hbase).1⟩
    have hself : h = h.resize 0 := by
      simp [resize]
    rw [wp_pure]
    exact ⟨hr.freeRun_of_find hrequired hbase, ⟨0, hself⟩, fun _ => rfl,
      fun hfull => absurd hsome hfull⟩
  · next hfull =>
    have hnofree := hnone.mp hfull
    refine wp_ite (fun _ => ⟨rfl, hnofree⟩) fun _ => ?_
    rw [wp_bind, wp_set, wp_pure]
    have hlength : (h.resize (h.objects.length + required)).objects.length =
        h.objects.length + required := by
      rw [length_objects_resize]
      omega
    exact ⟨hr.freeRun_resize required, ⟨_, rfl⟩, fun hsome => absurd hsome hnofree,
      fun _ => hlength⟩

/-- An object installed in a free run leaves the storage runs disjoint. -/
theorem StorageRuns.installObject (hr : h.StorageRuns)
    (hfree : h.FreeRun base d.val.storageSlotCount) :
    (h.installObject d base generation).StorageRuns := by
  have hpos := d.val.storageSlotCount_pos
  have hinside := hfree.inside
  have hbase : base < h.objects.length := by omega
  have hlength : (h.installObject d base generation).objects.length = h.objects.length :=
    List.length_set
  have hwidth : (h.newObject d).width = d.val.storageSlotCount := rfl
  refine ⟨fun slot o ho => ?_, fun slot slot' o o' hlt ho ho' => ?_⟩
  · rw [objectAt_installObject hbase] at ho
    split at ho
    · cases ho
      omega
    · have hold := hr.inside slot o ho
      omega
  · rw [objectAt_installObject hbase] at ho ho'
    split at ho
    · cases ho
      rw [if_neg (by omega)] at ho'
      have hapart := hfree.clear slot' o' ho'
      have hpos' := o'.width_pos
      omega
    · split at ho'
      · have hapart := hfree.clear slot o ho
        omega
      · exact hr.disjoint slot slot' o o' hlt ho ho'

theorem wp_placeObject_allocatesRun (hr : h.StorageRuns) (payload : Payload) :
    wp (placeObject payload) (fun _ h' => h.AllocatesRun payload.storageSlotCount h')
      (fun _ h' => (∃ s, h.SlotsFree payload.storageSlotCount s) → h' = h) h := by
  have hrequired := payload.storageSlotCount_pos
  unfold placeObject
  refine wp_query_bind (fun d hd => ?_) fun _ _ _ => rfl
  obtain ⟨hshape, rfl⟩ := validateDescriptorShape_eq_ok hd
  rw [wp_bind]
  refine wp_mono (wp_reserveStorageRun_fits hr hrequired) (fun base h₁ hreserved => ?_)
    fun _ _ hfull => fun _ => hfull.1
  obtain ⟨hfree, ⟨size, hsize⟩, hfits, hgrows⟩ := hreserved
  refine wp_query_bind (fun generation _ => ?_) fun _ _ => hfits
  rw [wp_bind, wp_modify, wp_pure]
  have hrun : h₁.FreeRun base payload.storageSlotCount := hfree
  have hinside := hrun.inside
  have hbase : base < h₁.objects.length := by omega
  have hlength : (h₁.installObject ⟨payload, hshape⟩ base generation).objects.length =
      h₁.objects.length := List.length_set
  have hat : ∀ slot, h₁.objectAt slot = h.objectAt slot := by
    intro slot
    rw [hsize, objectAt_resize]
  have hr₁ : h₁.StorageRuns := by
    rw [hsize]
    exact hr.resize size
  refine ⟨hr₁.installObject hrun, ⟨base, h₁.newObject ⟨payload, hshape⟩, ?_, rfl, ?_, ?_, ?_⟩, ?_, ?_⟩
  · rw [objectAt_installObject hbase, if_pos rfl]
  · cases ho : h.objectAt base with
    | none => rfl
    | some o =>
      have hapart := hrun.clear base o ((hat base).trans ho)
      have hpos := o.width_pos
      omega
  · exact fun slot o ho => hrun.clear slot o ((hat slot).trans ho)
  · intro slot hne
    rw [objectAt_installObject hbase, if_neg hne, hat]
  · exact fun hsome => hlength.trans (congrArg (fun h => h.objects.length) (hfits hsome))
  · exact fun hnone => hlength.trans (hgrows hnone)

end Allocation

/-! ## The search of the allocator -/

/-- The first-fit search of the allocator agrees with slot occupancy: it finds the lowest run of
free slots, and nothing exactly when there is none; so an allocation overlaps no object, and one
that fails or succeeds extends the slot vector only if no run of free slots is wide enough. -/
theorem findFreeStorageRun_agrees (h : Heap) (required : ℕ) (hr : h.StorageRuns)
    (hrequired : 0 < required) :
    (∀ slot, h.findFreeStorageRun required = some slot ↔
      IsLeast {slot | h.SlotsFree required slot} slot) ∧
    (h.findFreeStorageRun required = none ↔ ¬∃ slot, h.SlotsFree required slot) ∧
    ∀ payload : Payload, payload.storageSlotCount = required →
      (∀ id h', placeObject payload h = .ok id h' → h.AllocatesRun required h') ∧
      ∀ e h', placeObject payload h = .error e h' →
        (∃ slot, h.SlotsFree required slot) → h' = h := by
  refine ⟨fun slot => hr.findFreeStorageRun_eq_some_iff hrequired,
    hr.findFreeStorageRun_eq_none_iff hrequired, ?_⟩
  rintro payload rfl
  have hplaces := wp_placeObject_allocatesRun hr payload
  constructor
  · intro id h' hrun
    have hallocates := wp_ok hrun hplaces
    exact hallocates
  · intro e h' hrun
    have hkept := wp_error hrun hplaces
    exact hkept

theorem storageRuns_empty (stressConfig : StressConfig) : (Heap.empty stressConfig).StorageRuns where
  inside slot o ho := by simp [objectAt, Heap.empty] at ho
  disjoint slot slot' o o' hlt ho := by simp [objectAt, Heap.empty] at ho

/-- In five slots with an array in the second and third, the lowest two free slots are the last. -/
theorem findFreeStorageRun_behind_array :
    (((Heap.empty .quiet).resize 5).installObject ⟨.scalarArray [0, 0], rfl⟩ 1 1).findFreeStorageRun
      2 = some 3 ∧
    IsLeast {slot | (((Heap.empty .quiet).resize 5).installObject
      ⟨.scalarArray [0, 0], rfl⟩ 1 1).SlotsFree 2 slot} 3 := by
  have hempty := (storageRuns_empty .quiet).resize 5
  have hfree : ((Heap.empty .quiet).resize 5).FreeRun 1 2 := by
    refine ⟨by decide, fun slot o ho => ?_⟩
    rw [objectAt_resize] at ho
    exact absurd ho (by simp [objectAt, Heap.empty])
  have hruns : (((Heap.empty .quiet).resize 5).installObject ⟨.scalarArray [0, 0], rfl⟩ 1
      1).StorageRuns := hempty.installObject hfree
  have hagrees := findFreeStorageRun_agrees _ 2 hruns (by decide)
  exact ⟨rfl, (hagrees.1 3).mp rfl⟩

end Heap

end LanguageRuntime.Gc
