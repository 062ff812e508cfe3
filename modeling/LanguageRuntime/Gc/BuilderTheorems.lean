import LanguageRuntime.Gc.MapTheorems

/-!
# Builder mutations

The capacity of a builder climbs a ladder of powers of two. An append that exceeds it first
finishes an active compaction and grows the storage run.
-/

namespace LanguageRuntime.Gc

open LanguageRuntime LanguageRuntime.Library

/-! ## The capacity ladder -/

/-- A capacity of the growth ladder 8, 16, .., 2^31, 2^32 - 1. -/
def OnLadder (capacity : ℕ) : Prop :=
  capacity = headerLimit ∨ ∃ k, 3 ≤ k ∧ k < 32 ∧ capacity = 2 ^ k

section Ladder

variable {capacity required : ℕ}

theorem onLadder_initial : OnLadder kBuilderInitialCapacity := .inr ⟨3, by decide, by decide, rfl⟩

theorem OnLadder.isBuilderCapacity (hc : OnLadder capacity) : isBuilderCapacity capacity = true := by
  rcases hc with rfl | ⟨k, hk, -, rfl⟩
  · rfl
  · have hcapacity : IsCapacity (2 ^ k) := ⟨k, hk, rfl⟩
    have hpos : kBuilderInitialCapacity ≤ 2 ^ k := hcapacity.pos
    rw [Gc.isBuilderCapacity, hcapacity.mask, Nat.mod_self, decide_eq_true hpos]
    simp

theorem OnLadder.le_headerLimit (hc : OnLadder capacity) : capacity ≤ headerLimit := by
  rcases hc with rfl | ⟨k, -, hk, rfl⟩
  · exact le_rfl
  · have hle : 2 ^ k ≤ 2 ^ 31 := Nat.pow_le_pow_right (by omega) (by omega)
    simp only [headerLimit]
    omega

/-- A number with no common bit with its predecessor is a power of two. -/
theorem eq_two_pow_of_and_pred {n : ℕ} (hpos : 0 < n) (hand : n &&& (n - 1) = 0) :
    ∃ k, n = 2 ^ k := by
  induction n using Nat.strong_induction_on with
  | h n ih =>
    obtain ⟨m, rfl | rfl⟩ : ∃ m, n = 2 * m ∨ n = 2 * m + 1 := ⟨n / 2, by omega⟩
    · have hpred : 2 * m - 1 = 2 * (m - 1) + 1 := by omega
      have hhalf : m &&& (m - 1) = 0 := by
        have hdiv := congrArg (· / 2) hand
        simp only [Nat.and_div_two, hpred] at hdiv
        have h₁ : 2 * m / 2 = m := by omega
        have h₂ : (2 * (m - 1) + 1) / 2 = m - 1 := by omega
        rwa [h₁, h₂] at hdiv
      obtain ⟨k, rfl⟩ := ih m (by omega) (by omega) hhalf
      exact ⟨k + 1, by rw [pow_succ]; omega⟩
    · have hhalf : m &&& m = 0 := by
        have hdiv := congrArg (· / 2) hand
        simp only [Nat.and_div_two] at hdiv
        have h₁ : (2 * m + 1) / 2 = m := by omega
        have h₂ : (2 * m + 1 - 1) / 2 = m := by omega
        rwa [h₁, h₂] at hdiv
      rw [Nat.and_self] at hhalf
      exact ⟨0, by rw [hhalf]; rfl⟩

/-- A growth takes the least capacity of the ladder that suffices. -/
structure LeastCapacity (current required capacity : ℕ) : Prop where
  onLadder : OnLadder capacity
  current_le : current ≤ capacity
  required_le : required ≤ capacity
  least : ∀ other, OnLadder other → current ≤ other → required ≤ other → capacity ≤ other

theorem leastCapacity_self (hc : OnLadder capacity) (hle : required ≤ capacity) :
    LeastCapacity capacity required capacity :=
  ⟨hc, le_rfl, hle, fun _ _ hother _ => hother⟩

/-- The capacity after one doubling. -/
theorem doubled_least {k other : ℕ} (hother : OnLadder other)
    (hlt : 2 ^ k < other) :
    (if headerLimit / 2 < 2 ^ k then headerLimit else 2 ^ k * 2) ≤ other := by
  rcases hother with rfl | ⟨j, -, hj, rfl⟩
  · split
    · exact le_rfl
    · next hhalf =>
      simp only [headerLimit] at hhalf ⊢
      omega
  · have hkj : k < j := (Nat.pow_lt_pow_iff_right (by decide)).mp hlt
    have hle : 2 ^ (k + 1) ≤ 2 ^ j := Nat.pow_le_pow_right (by decide) hkj
    have hsmall : 2 ^ j ≤ 2 ^ 31 := Nat.pow_le_pow_right (by decide) (by omega)
    rw [pow_succ] at hle
    have hnot : ¬headerLimit / 2 < 2 ^ k := by
      simp only [headerLimit]
      omega
    rwa [if_neg hnot]

theorem growBuilderCapacity_least {fuel : ℕ} (hrequired : required ≤ headerLimit)
    (hc : capacity = headerLimit ∨ ∃ k, 3 ≤ k ∧ k < 32 ∧ 32 ≤ fuel + k ∧ capacity = 2 ^ k) :
    LeastCapacity capacity required (growBuilderCapacity required fuel capacity) := by
  have hladder : OnLadder capacity := by
    rcases hc with hlimit | ⟨k, hk, hk', -, heq⟩
    · exact .inl hlimit
    · exact .inr ⟨k, hk, hk', heq⟩
  induction fuel generalizing capacity with
  | zero =>
    rcases hc with rfl | ⟨k, -, hk, hfuel, -⟩
    · exact leastCapacity_self hladder hrequired
    · omega
  | succ fuel ih =>
    unfold growBuilderCapacity
    split
    · next hlt =>
      rcases hc with rfl | ⟨k, hk, hk', hfuel, rfl⟩
      · omega
      · have hnext : (if headerLimit / 2 < 2 ^ k then headerLimit else 2 ^ k * 2) = headerLimit ∨
            ∃ j, 3 ≤ j ∧ j < 32 ∧ 32 ≤ fuel + j ∧
              (if headerLimit / 2 < 2 ^ k then headerLimit else 2 ^ k * 2) = 2 ^ j := by
          by_cases hlast : k = 31
          · subst hlast
            exact .inl rfl
          · have hle : 2 ^ k ≤ 2 ^ 30 := Nat.pow_le_pow_right (by decide) (by omega)
            have hnot : ¬headerLimit / 2 < 2 ^ k := by
              simp only [headerLimit]
              omega
            exact .inr ⟨k + 1, by omega, by omega, by omega, by rw [if_neg hnot, pow_succ]⟩
        have hrung : OnLadder (if headerLimit / 2 < 2 ^ k then headerLimit else 2 ^ k * 2) := by
          rcases hnext with hlimit | ⟨j, hj, hj', -, heq⟩
          · exact .inl hlimit
          · exact .inr ⟨j, hj, hj', heq⟩
        have hgrown := ih hnext hrung
        have hpos : 0 < 2 ^ k := Nat.two_pow_pos k
        have hle : 2 ^ k ≤ if headerLimit / 2 < 2 ^ k then headerLimit else 2 ^ k * 2 := by
          have hbound := hladder.le_headerLimit
          split <;> omega
        exact ⟨hgrown.onLadder, hle.trans hgrown.current_le, hgrown.required_le,
          fun other hother hcurrent hrequired' => hgrown.least other hother
            (doubled_least hother (hlt.trans_le hrequired')) hrequired'⟩
    · next hle => exact leastCapacity_self hladder (Nat.not_lt.mp hle)

theorem builderCapacityForRequired_eq_ok {grown : ℕ} (hc : OnLadder capacity)
    (hok : builderCapacityForRequired capacity required = .ok grown) :
    LeastCapacity capacity required grown := by
  unfold builderCapacityForRequired at hok
  split at hok
  · cases hok
  · split at hok
    · cases hok
    · next hrequired =>
      cases hok
      exact growBuilderCapacity_least (Nat.not_lt.mp hrequired) (hc.imp_right fun hex =>
        let ⟨k, hk, hk', heq⟩ := hex
        ⟨k, hk, hk', by omega, heq⟩)

theorem isBuilderCapacity_cases (hc : isBuilderCapacity capacity = true) :
    OnLadder capacity ∨ headerLimit < capacity := by
  unfold isBuilderCapacity at hc
  rw [Bool.or_eq_true, Bool.and_eq_true, beq_iff_eq, beq_iff_eq, decide_eq_true_eq] at hc
  rcases hc with rfl | ⟨hle, hand⟩
  · exact .inl (.inl rfl)
  · have hpos : 8 ≤ capacity := hle
    obtain ⟨k, rfl⟩ := eq_two_pow_of_and_pred (by omega) hand
    have hk : 3 ≤ k := (Nat.pow_le_pow_iff_right (by decide : 1 < 2)).mp hpos
    by_cases hlast : k < 32
    · exact .inl (.inr ⟨k, hk, hlast, rfl⟩)
    · have hbig : 2 ^ 32 ≤ 2 ^ k := Nat.pow_le_pow_right (by decide) (by omega)
      refine .inr ?_
      simp only [headerLimit]
      omega

theorem shape_builder {bytes : List UInt8} : (Payload.builder capacity bytes).DescriptorShape ↔
    bytes.length ≤ capacity ∧ isBuilderCapacity capacity = true := by
  show (if capacity < bytes.length then some _ else if !isBuilderCapacity capacity then some _
    else none) = none ↔ _
  split
  · next hlt => simp only [reduceCtorEq, false_iff, not_and]; omega
  · next hle => cases isBuilderCapacity capacity <;> simp [Nat.not_lt.mp hle]

/-- A grown capacity suffices and passes the descriptor check. -/
theorem isBuilderCapacity_grown {grown : ℕ} (hcapacity : isBuilderCapacity capacity = true)
    (hok : builderCapacityForRequired capacity required = .ok grown) :
    required ≤ grown ∧ isBuilderCapacity grown = true := by
  rcases isBuilderCapacity_cases hcapacity with hc | hbig
  · have hgrown := builderCapacityForRequired_eq_ok hc hok
    exact ⟨hgrown.required_le, hgrown.onLadder.isBuilderCapacity⟩
  · -- a capacity past the header limit suffices
    unfold builderCapacityForRequired at hok
    rw [hcapacity, Bool.not_true, if_neg Bool.false_ne_true] at hok
    split at hok
    · cases hok
    · next hrequired =>
      have hnot : ¬capacity < required := by omega
      rw [growBuilderCapacity, if_neg hnot] at hok
      cases hok
      exact ⟨by omega, hcapacity⟩

theorem shape_grown {bytes bytes' : List UInt8} {grown : ℕ}
    (hshape : (Payload.builder capacity bytes).DescriptorShape)
    (hok : builderCapacityForRequired capacity required = .ok grown)
    (hle : bytes'.length ≤ required) : (Payload.builder grown bytes').DescriptorShape := by
  obtain ⟨hgrown, hcapacity⟩ := isBuilderCapacity_grown (shape_builder.mp hshape).2 hok
  exact shape_builder.mpr ⟨hle.trans hgrown, hcapacity⟩

end Ladder

namespace Heap

/-! ## Builders -/

section Builders

variable {h : Heap} {id : ObjectId} {slot capacity capacity' : ℕ} {o : Object}
  {bytes bytes' : List UInt8} {value : Value}

/-- The payload of a builder holds no references. -/
theorem storable_builder (hp : o.payload = .builder capacity bytes)
    (hshape : (Payload.builder capacity' bytes').DescriptorShape)
    (hfits : h.Fits slot (Payload.builder capacity' bytes').storageSlotCount) :
    h.Storable slot o ⟨.builder capacity' bytes', hshape⟩ where
  kind := by rw [hp]; rfl
  mutable := by rw [hp]; exact nofun
  fits := hfits
  fields := nofun
  greyed := nofun
  recorded := nofun
  indexed := nofun

theorem wp_publishBuilder (hw : h.Wf) (hr : h.resolve id = .ok (slot, o))
    (hp : o.payload = .builder capacity bytes) :
    wp (publishBuilder id slot capacity bytes')
      (fun _ h' => ∃ d, d.val = .builder capacity bytes' ∧ h.Stored h' slot o d)
      (fun _ h' => h' = h ∧ ¬(Payload.builder capacity bytes').DescriptorShape) h := by
  have ho := objectAt_of_resolve hr
  have hwidth : (Payload.builder capacity bytes').storageSlotCount = o.width := by
    rw [Object.width, hp]
    rfl
  unfold publishBuilder
  by_cases hshape : (Payload.builder capacity bytes').DescriptorShape
  · refine wp_query_ok (validateDescriptorShape_of_shape hshape) ?_
    have hd : h.Storable slot o ⟨.builder capacity bytes', hshape⟩ :=
      storable_builder hp hshape (hwidth ▸ hw.storage.fits ho)
    have hmirror : ∀ c, h.phase = .compacting c →
        (Payload.builder capacity bytes').storageSlotCount = o.width ∧ ∀ _ : Heap,
          mirrorBuilder capacity bytes' (c.mirror o.payload) =
            .ok (c.mirror (.builder capacity bytes')) := by
      refine fun c _ => ⟨hwidth, fun _ => ?_⟩
      rw [hp]
      exact if_neg (not_not.mpr rfl)
    have hpublish := hw.wp_publish hr hd hmirror
    rw [wp_bind] at hpublish
    rw [wp_bind]
    refine wp_mono hpublish (fun _ h₁ hmirrored => ?_) fun _ _ he => he.elim
    rw [wp_bind]
    refine wp_mono hmirrored (fun _ h₂ hpublished => ?_) fun _ _ he => he.elim
    have hs₂ := hpublished.1.toSound
    rw [wp_query, validateHeapStorageLayout_eq_ok hs₂.storage hs₂.maps, yields_ok]
    exact ⟨_, rfl, hpublished.1, h, .refl hw, hpublished.2⟩
  · refine wp_query_bind (fun d hd => ?_) fun _ _ => ⟨rfl, hshape⟩
    rw [validateDescriptorShape, dif_neg hshape] at hd
    cases hd

theorem wp_builderClear (hw : h.Wf) (hid : h.Valid (.object id)) :
    wp (builderClear id)
      (fun _ h' => ∃ slot o d capacity bytes, h.resolve id = .ok (slot, o) ∧
        o.payload = .builder capacity bytes ∧ d.val = .builder capacity [] ∧ h.Stored h' slot o d)
      (fun _ h' => h' = h) h := by
  unfold builderClear
  refine wp_query_ok (hw.canonicalize_eq_ok hid) ?_
  rw [Value.mapObject_object]
  refine wp_query_ok (a := h.canonical id) rfl ?_
  refine wp_query_bind (fun found hfound => ?_) fun _ _ => rfl
  obtain ⟨slot, o, capacity, bytes⟩ := found
  obtain ⟨hr, hp⟩ := checkedBuilder_eq_ok hfound
  obtain ⟨slot₀, o₀, hr₀⟩ := valid_object.mp hid
  have hsame := hw.storage.resolve_canonical hr₀
  rw [hr] at hsame
  cases hsame
  refine wp_mono (wp_publishBuilder hw hr hp) (fun _ h' hpost => ?_) fun _ _ he => he.1
  obtain ⟨d, hd, hstored⟩ := hpost
  exact ⟨slot, o, d, capacity, bytes, hr₀, hp, hd, hstored⟩

/-- Outside incremental compaction there is no shadow to write. -/
theorem Wf.setPayload (hw : h.Wf) (hc : h.incrementalCompactionActive = false)
    (hr : h.resolve id = .ok (slot, o)) {d : Descriptor} (hd : h.Storable slot o d) :
    (h.setPayload slot d).Wf := by
  have hnot := Heap.incrementalCompactionActive_eq_false.mp hc
  have hpublish : wp (do modify (·.setPayload slot d); mirrorIntoShadow id fun _ _ p => .ok p)
      (fun _ h' => h'.Wf ∧ h.Publishes h' slot o d) (fun _ _ => False) h :=
    hw.wp_publish hr hd fun c hphase => absurd hphase (hnot c)
  have hphase : (h.setPayload slot d).phase = h.phase := by
    rw [Heap.setPayload, objectAt_of_resolve hr]
    rfl
  rw [wp_bind, wp_modify, mirrorIntoShadow, wp_bind, wp_get, hphase] at hpublish
  cases hp : h.phase with
  | compacting c => exact absurd hp (hnot c)
  | _ =>
    rw [hp] at hpublish
    exact hpublish.1

theorem validateDescriptorShape_eq_ok {p : Payload} {d : Descriptor}
    (hok : validateDescriptorShape p = .ok d) : ∃ hshape : p.DescriptorShape, d = ⟨p, hshape⟩ := by
  unfold validateDescriptorShape at hok
  split at hok
  · next hshape => exact ⟨hshape, (Except.ok.inj hok).symm⟩
  · exact nomatch hok

/-- The cells name a builder and the string to append to it. -/
structure Appendable (h : Heap) (cells : List Value) (slot : ℕ) (o : Object) (capacity : ℕ)
    (bytes appended : List UInt8) : Prop where
  owner : ∃ id, asObject (cells.getD 0 .nil) = .ok id ∧
    h.checkedBuilder id = .ok (slot, o, capacity, bytes)
  source : ∃ id, asObject (cells.getD 1 .nil) = .ok id ∧ h.checkedString id = .ok appended

theorem Appendable.unique {cells : List Value} {slot' capacity' : ℕ} {o' : Object}
    {appended bytes' appended' : List UInt8}
    (ha : h.Appendable cells slot o capacity bytes appended)
    (ha' : h.Appendable cells slot' o' capacity' bytes' appended') :
    slot' = slot ∧ o' = o ∧ capacity' = capacity ∧ bytes' = bytes ∧ appended' = appended := by
  obtain ⟨⟨id, hid, hb⟩, source, hsource, hs⟩ := ha
  obtain ⟨⟨id', hid', hb'⟩, source', hsource', hs'⟩ := ha'
  rw [hid] at hid'
  rw [hsource] at hsource'
  cases hid'
  cases hsource'
  rw [hb] at hb'
  rw [hs] at hs'
  cases hb'
  cases hs'
  exact ⟨rfl, rfl, rfl, rfl, rfl⟩

/-- `h'` is `h` after the growth of the builder that the cells name. -/
def BuilderGrown (h h' : Heap) (cells cells' : List Value) : Prop :=
  ∃ slot o capacity bytes appended width grown h₁ id₁ slot₁ o₁ d,
    h.Appendable cells slot o capacity bytes appended ∧
    builderCapacityForRequired capacity (bytes.length + appended.length) = .ok grown ∧
    h.Grew h₁ slot width o cells cells' ∧ h₁.Wf ∧ cells'.getD 0 .nil = .object id₁ ∧
    h₁.resolve id₁ = .ok (slot₁, o₁) ∧ o₁.payload = .builder capacity bytes ∧
    d.val = .builder grown bytes ∧ h₁.Stored h' slot₁ o₁ d

/-- A growth leaves the grown builder, or a slot vector that has outgrown the slot numbers. -/
theorem wp_growBuilder {operands : List Value} {F : List Value → Heap → Prop} (hw : h.Wf)
    (hoperands : ∀ v ∈ operands, h.Valid v)
    (hfinish : wp (finishActiveCompaction operands) F (fun _ _ => False) h) :
    wp (growBuilder operands)
      (fun cells' h' => (∃ h₁ cells₁, F cells₁ h₁ ∧ h₁.Wf ∧
        h₁.incrementalCompactionActive = false ∧ (∀ v ∈ cells₁, h₁.Valid v) ∧
        h₁.BuilderGrown h' cells₁ cells') ∨ h'.Oversized)
      (fun _ h' => (h'.Wf ∧ ∃ cells₁, F cells₁ h') ∨ h'.Oversized) h := by
  unfold growBuilder
  rw [wp_bind]
  refine wp_mono (wp_and (wp_finishActiveCompaction hw hoperands) hfinish)
    (fun cells₁ h₁ hpost => ?_) fun _ _ he => he.1.elim
  obtain ⟨⟨hw₁, hcells₁, -, hc₁, -⟩, hF⟩ := hpost
  have hfailed : (h₁.Wf ∧ ∃ cells₁, F cells₁ h₁) ∨ h₁.Oversized := .inl ⟨hw₁, cells₁, hF⟩
  refine wp_query_bind (fun ownerId howner => ?_) fun _ _ => hfailed
  refine wp_query_bind (fun sourceId hsourceId => ?_) fun _ _ => hfailed
  refine wp_query_bind (fun source hsource => ?_) fun _ _ => hfailed
  refine wp_query_bind (fun found hfound => ?_) fun _ _ => hfailed
  obtain ⟨slot, o, capacity, bytes⟩ := found
  obtain ⟨hr, hp⟩ := checkedBuilder_eq_ok hfound
  have happend : h₁.Appendable cells₁ slot o capacity bytes source :=
    ⟨⟨ownerId, howner, hfound⟩, sourceId, hsourceId, hsource⟩
  refine wp_query_bind (fun grown hgrown => ?_) fun _ _ => hfailed
  obtain ⟨rest, rfl⟩ := eq_cons_of_asObject howner
  have hrest : ∀ v ∈ rest, h₁.Valid v := fun v hv => hcells₁ v (List.mem_cons_of_mem _ hv)
  rw [wp_bind]
  refine wp_mono (wp_ensureBuilderGrowthStorage hw₁ hc₁ hr hp hrest)
    (fun cells' h₂ hgrew => ?_) fun _ _ he => he.symm ▸ hfailed
  rcases hgrew.roomy hw₁ hc₁ hr hrest with hroomy | hoversized
  · have hw₂ := hroomy.wf
    obtain ⟨id', slot', o', F', hcell, hr', hp', hfits⟩ := hroomy.owner
    have hoperand : asObject (cells'.getD 0 .nil) = .ok id' := by rw [hcell]; rfl
    refine wp_query_ok hoperand ?_
    have hp' : o'.payload = .builder capacity bytes := by
      rw [hp', hp]
      rfl
    refine wp_query_ok (checkedBuilder_of_resolve hr' hp') ?_
    dsimp only
    have hshape := shape_grown (hp ▸ o.shape) hgrown (Nat.le_add_right _ _)
    refine wp_query_ok (validateDescriptorShape_of_shape hshape) ?_
    rw [wp_bind, wp_modify, wp_pure]
    have hstored := hw₂.setPayload hroomy.settled hr' (storable_builder hp' hshape hfits)
    exact .inl ⟨h₁, _, hF, hw₁, hc₁, hcells₁, slot, o, capacity, bytes, source, _, grown, h₂, id',
      slot', o', _, happend, hgrown, hgrew, hw₂, hcell, hr', hp', rfl, hstored, h₂, .refl hw₂,
      publishes_setPayload (objectAt_of_resolve hr')⟩
  · have hrest := setGrownCapacity_preserves .oversized grown cells'
    exact wp_mono (hrest h₂ hoversized) (fun _ _ ho => .inr ho) fun _ _ ho => .inr ho

/-- The bytes fit, and the builder takes them. -/
theorem wp_publishAppended {cells : List Value} {appended : List UInt8} (hw : h.Wf)
    (ha : h.Appendable cells slot o capacity bytes appended)
    (hfits : bytes.length + appended.length ≤ capacity) :
    wp (publishAppended cells)
      (fun _ h' => ∃ d, d.val = .builder capacity (bytes ++ appended) ∧ h.Stored h' slot o d)
      (fun _ _ => False) h := by
  obtain ⟨⟨ownerId, howner, hfound⟩, sourceId, hsource, happended⟩ := ha
  obtain ⟨hr, hp⟩ := checkedBuilder_eq_ok hfound
  have hshape : (Payload.builder capacity (bytes ++ appended)).DescriptorShape := by
    have hold := o.shape
    rw [hp] at hold
    refine shape_builder.mpr ⟨?_, (shape_builder.mp hold).2⟩
    rwa [List.length_append]
  unfold publishAppended
  refine wp_query_ok howner ?_
  refine wp_query_ok hsource ?_
  refine wp_query_ok hfound ?_
  refine wp_query_ok happended ?_
  exact wp_mono (wp_publishBuilder hw hr hp) (fun _ _ hstored => hstored)
    fun _ _ he => absurd hshape he.2

theorem wp_publishAppended_wf {cells : List Value} (hw : h.Wf) :
    wp (publishAppended cells) (fun _ h' => h'.Wf) Throws h := by
  refine wp_query_bind (fun ownerId _ => ?_) fun _ _ => .inl hw
  refine wp_query_bind (fun sourceId _ => ?_) fun _ _ => .inl hw
  refine wp_query_bind (fun found hfound => ?_) fun _ _ => .inl hw
  obtain ⟨slot, o, capacity, bytes⟩ := found
  obtain ⟨hr, hp⟩ := checkedBuilder_eq_ok hfound
  refine wp_query_bind (fun appended _ => ?_) fun _ _ => .inl hw
  exact wp_mono (wp_publishBuilder hw hr hp)
    (fun _ _ hpost => let ⟨_, _, hstored⟩ := hpost; hstored.1) fun _ _ he => .inl (he.1 ▸ hw)

/-- An append checks its operands, and publishes at once if the bytes fit. -/
theorem wp_builderAppend_of {Q : Unit → Heap → Prop} {E : HeapError → Heap → Prop} (hw : h.Wf)
    (hid : h.Valid (.object id)) (hvalue : h.Valid value) (hfailed : ∀ e, E e h)
    (hfits : ∀ slot o capacity bytes appended,
      h.Appendable [.object id, value] slot o capacity bytes appended →
      h.Appendable [.object (h.canonical id), value.mapObject h.canonical] slot o capacity bytes
        appended → bytes.length + appended.length ≤ capacity →
      wp (publishAppended [.object (h.canonical id), value.mapObject h.canonical]) Q E h)
    (hgrows : ∀ slot o capacity bytes appended,
      h.Appendable [.object id, value] slot o capacity bytes appended →
      h.Appendable [.object (h.canonical id), value.mapObject h.canonical] slot o capacity bytes
        appended → capacity < bytes.length + appended.length →
      (∀ v ∈ [.object (h.canonical id), value.mapObject h.canonical], h.Valid v) →
      wp (growBuilder [.object (h.canonical id), value.mapObject h.canonical] >>= publishAppended)
        Q E h) :
    wp (builderAppend id value) Q E h := by
  unfold builderAppend
  refine wp_query_ok (hw.canonicalize_eq_ok hid) ?_
  rw [Value.mapObject_object]
  refine wp_query_bind (fun found hobject => ?_) fun e _ => hfailed e
  refine wp_query_ok (hw.canonicalize_eq_ok hvalue) ?_
  cases value with
  | object source =>
    rw [Value.mapObject_object]
    refine wp_query_ok (a := h.canonical source) rfl ?_
    refine wp_query_ok (a := h.canonical id) rfl ?_
    refine wp_query_bind (fun appended happended => ?_) fun e _ => hfailed e
    refine wp_query_bind (fun found hfound => ?_) fun e _ => hfailed e
    obtain ⟨slot, o, capacity, bytes⟩ := found
    obtain ⟨hr, hp⟩ := checkedBuilder_eq_ok hfound
    -- the operands name what their current identifiers name
    obtain ⟨slot₀, o₀, hr₀⟩ := valid_object.mp hid
    obtain ⟨slot₁, o₁, hr₁⟩ := valid_object.mp hvalue
    have hsame := hw.storage.resolve_canonical hr₀
    rw [hr] at hsame
    cases hsame
    have hcanonical : h.Appendable [.object (h.canonical id), .object (h.canonical source)] slot o
        capacity bytes appended := ⟨⟨_, rfl, hfound⟩, _, rfl, happended⟩
    have happend : h.Appendable [.object id, .object source] slot o capacity bytes appended := by
      refine ⟨⟨id, rfl, checkedBuilder_of_resolve hr₀ hp⟩, source, rfl, ?_⟩
      rw [checkedString, hw.storage.resolve_canonical hr₁] at happended
      rwa [checkedString, hr₁]
    refine wp_ite (fun _ => hfailed _) fun _ => ?_
    refine wp_ite (fun hlt => ?_) fun hle => ?_
    · refine hgrows slot o capacity bytes appended happend hcanonical hlt ?_
      simp only [List.forall_mem_cons, List.not_mem_nil, false_implies, implies_true, and_true]
      exact ⟨hw.storage.valid_canonical hid, hw.storage.valid_canonical hvalue⟩
    · rw [wp_bind, wp_pure]
      exact hfits slot o capacity bytes appended happend hcanonical (Nat.not_lt.mp hle)
  | _ => exact nomatch hobject

/-- An append keeps the invariant, unless the slot vector outgrows the slot numbers. -/
theorem wp_builderAppend (hw : h.Wf) (hid : h.Valid (.object id)) (hvalue : h.Valid value) :
    wp (builderAppend id value) (fun _ h' => h'.Wf ∨ h'.Oversized)
      (fun e h' => Throws e h' ∨ h'.Oversized) h := by
  refine wp_builderAppend_of hw hid hvalue (fun _ => .inl (.inl hw)) ?_ ?_
  · intro slot o capacity bytes appended _ ha hfits
    exact wp_mono (wp_publishAppended_wf hw) (fun _ _ hw' => .inl hw') fun _ _ he => .inl he
  · intro slot o capacity bytes appended _ _ _ hvalid
    have hfinish : wp (finishActiveCompaction _) (fun _ _ => True) (fun _ _ => False) h :=
      wp_mono (wp_finishActiveCompaction hw hvalid) (fun _ _ _ => trivial) fun _ _ he => he
    rw [wp_bind]
    refine wp_mono (wp_growBuilder hw hvalid hfinish) (fun cells' h' hpost => ?_)
      fun _ _ he => he.imp_left fun hand => .inl hand.1
    rcases hpost with ⟨h₁, cells₁, -, -, -, -, hgrown⟩ | hoversized
    · obtain ⟨_, _, _, _, _, _, _, _, _, _, _, _, _, _, _, _, _, _, _, _, hstored⟩ := hgrown
      exact wp_mono (wp_publishAppended_wf hstored.1) (fun _ _ hw' => .inl hw')
        fun _ _ he => .inl he
    · have hpublish := publishAppended_preserves .oversized cells'
      exact wp_mono (hpublish h' hoversized) (fun _ _ ho => .inr ho) fun _ _ ho => .inr ho

end Builders

end Heap

end LanguageRuntime.Gc
