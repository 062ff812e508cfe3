import LanguageRuntime.Trace.Checker

/-!
# The checker accepts the writer's ledger

The writer and the replay of what it writes go in step: `Agrees` relates their states, and each
callback of the writer keeps it. The writer's bound on a check is what the checker allows, that a
check has at most as many unseen occurrences as there are positions without an event.
-/

namespace LanguageRuntime.Trace

variable {α : Type}

/-! ## Checks -/

@[simp] theorem require_eq_ok {c : Prop} [Decidable c] {code event expected : String} :
    require c code event expected = .ok () ↔ c := by
  unfold require
  split <;> simp_all

theorem bind_eq_ok {ε β : Type} {x : Except ε α} {f : α → Except ε β} {b : β} :
    (x >>= f) = .ok b ↔ ∃ a, x = .ok a ∧ f a = .ok b := by
  cases x <;> simp [bind, Except.bind]

theorem check_bind_eq_ok {ε : Type} {x : Except ε Unit} {f : Unit → Except ε α} {a : α} :
    (x >>= f) = .ok a ↔ x = .ok () ∧ f () = .ok a := by
  cases x <;> simp [bind, Except.bind]

/-- The checks of an event go through if no check is listed twice and all are known. -/
theorem requireVerifyChecks_ok {seen checks : List String} (hnodup : (seen ++ checks).Nodup)
    (hknown : ∀ check ∈ checks, check ∈ verifyStepChecks) :
    requireVerifyChecks seen checks = .ok () := by
  induction checks generalizing seen with
  | nil => rfl
  | cons check checks ih =>
    have hfresh : check ∉ seen := by
      intro hseen
      have hdisjoint := (List.nodup_append.mp hnodup).2.2
      exact hdisjoint check hseen check (by simp) rfl
    have hrest : requireVerifyChecks (seen ++ [check]) checks = .ok () := by
      apply ih
      · simpa using hnodup
      · intro other hother
        exact hknown other (by simp [hother])
    simp [requireVerifyChecks, check_bind_eq_ok, hknown check (by simp), hfresh, hrest]

/-! ## Stride -/

/-- The multiples of the stride that `_stride_evidence` asks for. -/
def strideIndices (stride trueCount : ℕ) : List ℕ :=
  (List.range (if trueCount = 0 then 0 else (trueCount - 1) / stride + 1)).map (· * stride)

theorem mem_strideIndices {stride trueCount index : ℕ} (hstride : 0 < stride) :
    index ∈ strideIndices stride trueCount ↔ index < trueCount ∧ index % stride = 0 := by
  simp only [strideIndices, List.mem_map, List.mem_range]
  constructor
  · rintro ⟨k, hk, rfl⟩
    split at hk
    · omega
    · have hle : k ≤ (trueCount - 1) / stride := by omega
      have hmul : k * stride ≤ trueCount - 1 := (Nat.le_div_iff_mul_le hstride).mp hle
      exact ⟨by omega, Nat.mul_mod_left k stride⟩
  · rintro ⟨hlt, hmod⟩
    have hne : trueCount ≠ 0 := by omega
    have hdiv : index / stride ≤ (trueCount - 1) / stride := Nat.div_le_div_right (by omega)
    refine ⟨index / stride, by simp only [hne, if_false]; omega, ?_⟩
    exact Nat.div_mul_cancel (Nat.dvd_of_mod_eq_zero hmod)

theorem strideIndices_pairwise {stride trueCount : ℕ} (hstride : 0 < stride) :
    (strideIndices stride trueCount).Pairwise (· < ·) := by
  apply List.Pairwise.map _ _ List.pairwise_lt_range
  intro a b hab
  exact Nat.mul_lt_mul_of_pos_right hab hstride

theorem firstMissing_multiples {stride trueCount : ℕ} (m k : ℕ)
    (hend : trueCount ≤ (k + m) * stride) :
    firstMissing stride trueCount (k * stride) ((List.range' k m).map (· * stride)) = none := by
  induction m generalizing k with
  | zero =>
    simp only [Nat.add_zero] at hend
    simp [firstMissing, hend]
  | succ m ih =>
    have hnext : k * stride + stride = (k + 1) * stride := (Nat.add_one_mul k stride).symm
    simp only [List.range'_succ, List.map_cons, firstMissing, ne_eq, not_true_eq_false, if_false,
      hnext]
    apply ih
    rwa [show k + 1 + m = k + (m + 1) by omega]

theorem firstMissing_strideIndices {stride trueCount : ℕ} (hstride : 0 < stride) :
    firstMissing stride trueCount 0 (strideIndices stride trueCount) = none := by
  have hzero : 0 = 0 * stride := by omega
  unfold strideIndices
  rw [List.range_eq_range']
  nth_rewrite 1 [hzero]
  apply firstMissing_multiples
  split
  · omega
  · have hlt : trueCount - 1 < ((trueCount - 1) / stride + 1) * stride :=
      (Nat.lt_div_mul_add hstride).trans_eq (Nat.add_one_mul _ _).symm
    simp only [Nat.zero_add]
    omega

/-- The checker finds every multiple of the stride in the positions of a scope. -/
theorem requireStride_ok {p : Sampling} (hp : 0 < p.stride) {scopeIndices : List ℕ}
    {trueCount : ℕ} (hsorted : scopeIndices.Pairwise (· < ·))
    (hbelow : ∀ index ∈ scopeIndices, index < trueCount)
    (hstride : ∀ index < trueCount, index % p.stride = 0 → index ∈ scopeIndices)
    (event : String) :
    requireStride p scopeIndices trueCount event = .ok () := by
  have hfiltered : (scopeIndices.filter fun index => index % p.stride = 0) =
      strideIndices p.stride trueCount := by
    apply List.Pairwise.eq_of_mem_iff (hsorted.filter _) (strideIndices_pairwise hp)
    intro index
    rw [mem_strideIndices hp]
    simp only [List.mem_filter, decide_eq_true_eq]
    constructor
    · intro h
      exact ⟨hbelow index h.1, h.2⟩
    · intro h
      exact ⟨hstride index h.1 h.2, h.2⟩
  have hle : (strideIndices p.stride trueCount).Pairwise (· ≤ ·) :=
    (strideIndices_pairwise hp).imp fun h => Nat.le_of_lt h
  unfold requireStride
  rw [hfiltered, List.Pairwise.insertionSort_eq hle]
  rw [require_eq_ok]
  exact ⟨by simp [strideIndices], firstMissing_strideIndices hp⟩

/-! ## One scope -/

/-- What the checker's entries for a check say about the writer's counter. An event of the check
at a position leaves no more room for later ones than there are positions without an event. -/
def CheckAgrees (counts : ScopeCounts) (scope : VerifyScope) (check : String) : Prop :=
  match scope.lastCheckIndices check with
  | some index => ∃ position ordinal, scope.lastCheckScopeIndices check = some position ∧
      scope.lastCheckEmittedOrdinals check = some ordinal ∧ index < counts.checkCounts check ∧
      position < counts.trueCount ∧ ordinal < counts.emittedCount ∧
      counts.checkCounts check + counts.emittedCount + position ≤
        counts.trueCount + index + ordinal + 1
  | none => counts.checkCounts check + counts.emittedCount ≤ counts.trueCount ∧
      (scope.collectionId.isSome → counts.checkCounts check = 0)

structure ScopeAgrees (p : Sampling) (counts : ScopeCounts) (scope : VerifyScope) : Prop where
  emittedCount : scope.emittedCount = counts.emittedCount
  emitted_le : counts.emittedCount ≤ counts.trueCount
  check_le : ∀ check, counts.checkCounts check ≤ counts.trueCount
  last_lt : ∀ last ∈ scope.lastScopeIndex, last < counts.trueCount
  sorted : scope.scopeIndices.Pairwise (· < ·)
  below : ∀ index ∈ scope.scopeIndices, index < counts.trueCount
  stride : ∀ index < counts.trueCount, index % p.stride = 0 → index ∈ scope.scopeIndices
  check : ∀ check, CheckAgrees counts scope check

/-- A step of a check, as the scope it happens in sees it. -/
structure StepIn (counts : ScopeCounts) (scope : VerifyScope) (check : String)
    (step : SampledStep) : Prop where
  collectionId : step.collectionId = scope.collectionId
  scopeIndex : step.scopeIndex = counts.trueCount
  checkIndex : step.checkIndex = counts.checkCounts check

namespace ScopeAgrees

variable {p : Sampling} {counts : ScopeCounts} {scope : VerifyScope} {check : String}
  {step : SampledStep}

/-- A scope without steps. -/
theorem empty (p : Sampling) (id : Option ℕ) : ScopeAgrees p {} { collectionId := id } := by
  constructor <;> simp [CheckAgrees]

/-- The checker's place for the first index of a scope is not about the counters. -/
theorem withBase (h : ScopeAgrees p counts scope) (base : Option ℕ) :
    ScopeAgrees p counts { scope with verifyIndexBase := base } :=
  ⟨h.emittedCount, h.emitted_le, h.check_le, h.last_lt, h.sorted, h.below, h.stride, h.check⟩

/-- A step that the rule leaves out. -/
theorem skip (h : ScopeAgrees p counts scope) (hstep : StepIn counts scope check step)
    (hskip : p.retains .sampled step = false) : ScopeAgrees p (counts.count check) scope := by
  have hpos := hstep.scopeIndex
  have hindex := hstep.checkIndex
  have hstride : counts.trueCount % p.stride ≠ 0 := by
    intro hmod
    simp [Sampling.retains, hpos, hmod] at hskip
  constructor
  · exact h.emittedCount
  · exact Nat.le_succ_of_le h.emitted_le
  · intro other
    have hle := h.check_le other
    simp only [ScopeCounts.count]
    split <;> omega
  · intro last hlast
    exact Nat.lt_succ_of_lt (h.last_lt last hlast)
  · exact h.sorted
  · intro index hmem
    exact Nat.lt_succ_of_lt (h.below index hmem)
  · intro index hlt hmod
    simp only [ScopeCounts.count] at hlt
    apply h.stride index _ hmod
    have hne : index ≠ counts.trueCount := by
      rintro rfl
      exact hstride hmod
    omega
  · intro other
    have hother := h.check other
    simp only [CheckAgrees, ScopeCounts.count] at hother ⊢
    split at hother
    · obtain ⟨position, ordinal, hposition, hordinal, hlt⟩ := hother
      refine ⟨position, ordinal, hposition, hordinal, ?_⟩
      split <;> omega
    · -- the first step of a check in a collection is kept
      have hfirst : scope.collectionId.isSome → other ≠ check := by
        rintro hid rfl
        simp [Sampling.retains, hstep.collectionId, hid, hindex, hother.2 hid] at hskip
      split
      · next hsame => exact ⟨by omega, fun hid => absurd hsame (hfirst hid)⟩
      · exact ⟨by omega, hother.2⟩

/-- The checker accepts a step that the rule keeps. -/
theorem accept_ok (h : ScopeAgrees p counts scope) (hstep : StepIn counts scope check step)
    (hkeep : p.retains .sampled step = true)
    (hopen : scope.collectionId.isSome → scope.terminalScopeIndex = none) :
    scope.accept p check step = .ok (scope.addStep check step) := by
  have hpos := hstep.scopeIndex
  have hindex := hstep.checkIndex
  have hcheck := h.check check
  have hroom : scope.requireOccurrence check step = .ok () := by
    have hemitted := h.emittedCount
    simp only [CheckAgrees, VerifyScope.requireOccurrence] at hcheck ⊢
    cases hlast : scope.lastCheckIndices check with
    | some index =>
      simp only [hlast] at hcheck ⊢
      obtain ⟨position, ordinal, hposition, hordinal, hlt⟩ := hcheck
      simp only [hposition, hordinal, check_bind_eq_ok, require_eq_ok]
      omega
    | none =>
      simp only [hlast] at hcheck ⊢
      rw [require_eq_ok]
      cases hid : scope.collectionId <;> simp [hid] at hcheck ⊢ <;> omega
  have hle : step.checkIndex ≤ step.scopeIndex := by
    rw [hpos, hindex]
    exact h.check_le check
  have hlast : ∀ last ∈ scope.lastScopeIndex, last < step.scopeIndex := by
    rw [hpos]
    exact h.last_lt
  unfold VerifyScope.accept
  simp only [check_bind_eq_ok, require_eq_ok]
  exact ⟨hlast, hle, hroom, hopen, hkeep, rfl⟩

/-- A step that the rule keeps, on both sides. -/
theorem keep (h : ScopeAgrees p counts scope) (hstep : StepIn counts scope check step) :
    ScopeAgrees p (counts.count check).emit (scope.addStep check step) := by
  have hpos := hstep.scopeIndex
  have hindex := hstep.checkIndex
  have hemitted := h.emittedCount
  constructor
  · simp [VerifyScope.addStep, ScopeCounts.emit, ScopeCounts.count, hemitted]
  · exact Nat.succ_le_succ h.emitted_le
  · intro other
    have hle := h.check_le other
    simp only [ScopeCounts.count, ScopeCounts.emit]
    split <;> omega
  · intro last hlast
    simp only [VerifyScope.addStep, Option.mem_some_iff] at hlast
    simp only [ScopeCounts.count, ScopeCounts.emit]
    omega
  · simp only [VerifyScope.addStep, List.pairwise_append, List.mem_singleton]
    refine ⟨h.sorted, List.pairwise_singleton _ _, ?_⟩
    rintro index hmem _ rfl
    rw [hpos]
    exact h.below index hmem
  · intro index hmem
    simp only [VerifyScope.addStep, List.mem_append, List.mem_singleton] at hmem
    simp only [ScopeCounts.count, ScopeCounts.emit]
    rcases hmem with hmem | rfl
    · exact Nat.lt_succ_of_lt (h.below index hmem)
    · omega
  · intro index hlt hmod
    simp only [ScopeCounts.count, ScopeCounts.emit] at hlt
    simp only [VerifyScope.addStep, List.mem_append, List.mem_singleton]
    by_cases hnew : index = counts.trueCount
    · exact .inr (hnew.trans hpos.symm)
    · exact .inl (h.stride index (by omega) hmod)
  · intro other
    have hother := h.check other
    by_cases hsame : other = check
    · subst hsame
      have hemitted_le := h.emitted_le
      simp only [CheckAgrees, VerifyScope.addStep, ScopeCounts.emit, ScopeCounts.count, if_true]
      refine ⟨step.scopeIndex, scope.emittedCount, rfl, rfl, ?_⟩
      omega
    · simp only [CheckAgrees, VerifyScope.addStep, ScopeCounts.emit, ScopeCounts.count, hsame,
        if_false] at hother ⊢
      split at hother
      · obtain ⟨position, ordinal, hposition, hordinal, hlt⟩ := hother
        refine ⟨position, ordinal, hposition, hordinal, ?_⟩
        omega
      · exact ⟨by omega, hother.2⟩

end ScopeAgrees

/-! ## A collection -/

/-- The open collection of the writer and the scope that the replay keeps for it. -/
structure CollectionAgrees (p : Sampling) (verifyTrueCount : ℕ) (collection : ActiveCollection)
    (scope : VerifyScope) : Prop where
  counts : ScopeAgrees p collection.counts scope
  id : scope.collectionId = some collection.id
  base_none : scope.verifyIndexBase = none → collection.counts.trueCount = 0
  base_some : ∀ base ∈ scope.verifyIndexBase, base + collection.counts.trueCount = verifyTrueCount
  terminal : scope.terminalScopeIndex =
    if collection.verifyTerminalSeen then some (collection.counts.trueCount - 1) else none
  terminal_pos : collection.verifyTerminalSeen → 0 < collection.counts.trueCount
  order : scope.firstCheckOrder = collection.verifyChecks
  nodup : collection.verifyChecks.Nodup
  known : ∀ check ∈ collection.verifyChecks, check ∈ verifyStepChecks
  counted : ∀ check, check ∈ collection.verifyChecks ↔ collection.counts.checkCounts check ≠ 0

namespace CollectionAgrees

variable {p : Sampling} {verifyTrueCount : ℕ} {collection : ActiveCollection}
  {scope : VerifyScope} {check : String} {step : SampledStep}

theorem empty (p : Sampling) (verifyTrueCount id : ℕ) (kind : TraceCollectionKind) :
    CollectionAgrees p verifyTrueCount { id := id, kind := kind } { collectionId := some id } := by
  constructor <;> simp [ScopeAgrees.empty]

/-- A check has an entry once it has been counted. -/
theorem lastCheckIndices_none_iff (h : CollectionAgrees p verifyTrueCount collection scope) :
    scope.lastCheckIndices check = none ↔ collection.counts.checkCounts check = 0 := by
  have hcheck := h.counts.check check
  unfold CheckAgrees at hcheck
  split at hcheck
  · next hsome =>
    obtain ⟨_, _, _, _, hlt, _⟩ := hcheck
    simp only [hsome, reduceCtorEq, false_iff]
    omega
  · next hnone =>
    simp only [hnone, true_iff]
    exact hcheck.2 (by simp [h.id])

/-- The checks of a collection after one more step. -/
theorem checks_count (h : CollectionAgrees p verifyTrueCount collection scope)
    (hknown : check ∈ verifyStepChecks) (terminal : Bool) :
    let after := Writer.countCollection collection check terminal
    after.verifyChecks.Nodup ∧ (∀ other ∈ after.verifyChecks, other ∈ verifyStepChecks) ∧
      ∀ other, other ∈ after.verifyChecks ↔ after.counts.checkCounts other ≠ 0 := by
  have hcounted := h.counted check
  simp only [Writer.countCollection, ScopeCounts.count]
  split
  · next hzero =>
    have hfresh : check ∉ collection.verifyChecks := by simp [hcounted, hzero]
    refine ⟨?_, ?_, ?_⟩
    · rw [List.nodup_append]
      refine ⟨h.nodup, List.nodup_singleton _, ?_⟩
      simp only [List.mem_singleton]
      rintro other hother _ rfl rfl
      exact hfresh hother
    · intro other hother
      rw [List.mem_append, List.mem_singleton] at hother
      rcases hother with hother | rfl
      · exact h.known other hother
      · exact hknown
    · intro other
      rw [List.mem_append, List.mem_singleton, h.counted other]
      by_cases hsame : other = check <;> simp [hsame]
  · next hpos =>
    refine ⟨h.nodup, h.known, ?_⟩
    intro other
    rw [h.counted other]
    by_cases hsame : other = check <;> simp [hsame, hpos]

theorem skip (h : CollectionAgrees p verifyTrueCount collection scope)
    (hstep : StepIn collection.counts scope check step) (hopen : collection.verifyTerminalSeen = false)
    (hskip : p.retains .sampled step = false) (hknown : check ∈ verifyStepChecks) :
    CollectionAgrees p (verifyTrueCount + 1)
      (Writer.countCollection collection check step.terminal) scope := by
  have hid : step.collectionId.isSome := by simp [hstep.collectionId, h.id]
  have hchecks := h.checks_count hknown step.terminal
  simp only [Sampling.retains, hid, if_true, Bool.or_eq_false_iff] at hskip
  obtain ⟨⟨⟨⟨_, hfirst⟩, hcheck⟩, _⟩, hterminal⟩ := hskip
  simp only [beq_eq_false_iff_ne, ne_eq] at hfirst hcheck
  have hmoved : collection.counts.trueCount ≠ 0 := by
    rw [← hstep.scopeIndex]
    exact hfirst
  have hseen : collection.counts.checkCounts check ≠ 0 := by
    rw [← hstep.checkIndex]
    exact hcheck
  constructor
  · apply h.counts.skip hstep
    simp [Sampling.retains, *]
  · exact h.id
  · intro hbase
    exact absurd (h.base_none hbase) hmoved
  · intro base hbase
    have hat := h.base_some base hbase
    simp only [Writer.countCollection, ScopeCounts.count]
    omega
  · simp [Writer.countCollection, h.terminal, hopen, hterminal]
  · simp [Writer.countCollection, hopen, hterminal]
  · simp [Writer.countCollection, h.order, hseen]
  · exact hchecks.1
  · exact hchecks.2.1
  · exact hchecks.2.2

/-- The position of a step in its collection is the one that the checker computes. -/
theorem locate_ok (h : CollectionAgrees p verifyTrueCount collection scope)
    (hstep : StepIn collection.counts scope check step) (hindex : step.verifyIndex = verifyTrueCount)
    (completed : ℕ) :
    ∃ base, base + step.scopeIndex = verifyTrueCount ∧
      scope.locate completed step = .ok { scope with verifyIndexBase := some base } := by
  have hpos := hstep.scopeIndex
  unfold VerifyScope.locate
  split
  · next hid =>
    simp [h.id] at hid
  · next hbase =>
    have hzero := h.base_none hbase
    refine ⟨step.verifyIndex, by omega, ?_⟩
    rw [check_bind_eq_ok, require_eq_ok]
    exact ⟨by omega, rfl⟩
  · next base _ hbase =>
    have hat := h.base_some base hbase
    refine ⟨base, by omega, ?_⟩
    rw [check_bind_eq_ok, require_eq_ok, ← hbase]
    exact ⟨by omega, rfl⟩

theorem keep (h : CollectionAgrees p verifyTrueCount collection scope)
    (hstep : StepIn collection.counts scope check step) (hopen : collection.verifyTerminalSeen = false)
    (hknown : check ∈ verifyStepChecks) {base : ℕ}
    (hbase : base + step.scopeIndex = verifyTrueCount) :
    CollectionAgrees p (verifyTrueCount + 1)
      { Writer.countCollection collection check step.terminal with
        counts := (collection.counts.count check).emit }
      ({ scope with verifyIndexBase := some base }.addStep check step) := by
  have hpos := hstep.scopeIndex
  have hchecks := h.checks_count hknown step.terminal
  constructor
  · exact (h.counts.withBase (some base)).keep ⟨hstep.collectionId, hstep.scopeIndex, hstep.checkIndex⟩
  · exact h.id
  · simp [VerifyScope.addStep]
  · intro other hother
    simp only [VerifyScope.addStep, Option.mem_some_iff] at hother
    simp only [ScopeCounts.count, ScopeCounts.emit]
    omega
  · simp [Writer.countCollection, VerifyScope.addStep, h.terminal, hopen, ScopeCounts.count,
      ScopeCounts.emit, hpos]
  · intro _
    exact Nat.succ_pos _
  · simp [Writer.countCollection, VerifyScope.addStep, h.order, h.id, h.lastCheckIndices_none_iff]
  · exact hchecks.1
  · exact hchecks.2.1
  · exact hchecks.2.2

end CollectionAgrees

/-! ## The whole state -/

/-- The counters of the open collection. -/
def Writer.activeCounts (w : Writer) : ScopeCounts :=
  match w.activeCollection with
  | some collection => collection.counts
  | none => {}

/-- What a verify step leaves alone: the mode, the open collection, the next one and the pauses. -/
def Writer.lifecycle (w : Writer) :
    VerifyEventMode × Option (ℕ × TraceCollectionKind) × ℕ × ℕ :=
  (w.verifyMode, w.activeCollection.map fun collection => (collection.id, collection.kind),
    w.nextCollectionId, w.pauseSlices)

/-- The same of a replay. -/
def Replay.lifecycle (r : Replay) : VerifyEventMode × Option (ℕ × TraceCollectionKind) × ℕ × ℕ :=
  (r.verifyMode, r.activeCollection, r.nextCollectionId, r.pauseSlices)

/-- The writer and a replay of the events that it has written. -/
structure Agrees (p : Sampling) (w : Writer) (r : Replay) : Prop where
  sampled : w.verifyMode = .sampled
  lifecycle : r.lifecycle = w.lifecycle
  collections : r.collections = r.nextCollectionId
  collectionEnds : r.collectionEnds + r.activeCollection.toList.length = r.nextCollectionId
  totals : w.verifyStepTotal = w.verifyEmittedCount ∧ r.verifyStepTotal = w.verifyEmittedCount ∧
    r.verifyEmittedCount = w.verifyEmittedCount
  trueCount : w.verifyTrueCount =
    w.unscoped.trueCount + r.verifyCollectionLedgerTrueCount + w.activeCounts.trueCount
  emittedCount : w.verifyEmittedCount = w.unscoped.emittedCount + r.verifyCollectionEmittedCount
  collectionEmitted : r.verifyCollectionEmittedCount =
    r.verifyCollectionLedgerEmittedCount + w.activeCounts.emittedCount
  ledger_le : r.verifyCollectionLedgerEmittedCount ≤ r.verifyCollectionLedgerTrueCount
  last_lt : ∀ last ∈ r.verifyLastIndex, last < w.verifyTrueCount
  head : ∀ index < w.verifyTrueCount, index < p.headWindow → index ∈ r.verifyIndices
  unscopedId : r.unscopedVerifyScope.collectionId = none
  unscoped : ScopeAgrees p w.unscoped r.unscopedVerifyScope
  collection : ∀ collection ∈ w.activeCollection, ∃ scope,
    r.collectionVerifyScope = some scope ∧
      CollectionAgrees p w.verifyTrueCount collection scope

/-- The fields that both sides give a step outside collections. -/
theorem nextStep_stepIn_unscoped {w : Writer} {scope : VerifyScope} (check : String)
    (terminal : Bool) (hactive : w.activeCollection = none) (hid : scope.collectionId = none) :
    StepIn w.unscoped scope check (w.nextStep check terminal) := by
  constructor <;> simp [Writer.nextStep, hactive, hid]

/-- The fields that both sides give a step of the open collection. -/
theorem nextStep_stepIn_collection {w : Writer} {collection : ActiveCollection}
    {scope : VerifyScope} (check : String) (terminal : Bool)
    (hactive : w.activeCollection = some collection)
    (hid : scope.collectionId = some collection.id) :
    StepIn collection.counts scope check (w.nextStep check terminal) := by
  constructor <;> simp [Writer.nextStep, hactive, hid]

namespace Agrees

variable {p : Sampling} {w : Writer} {r : Replay} {check : String} {terminal : Bool}

theorem start (p : Sampling) :
    Agrees p { verifyMode := .sampled } { verifyMode := .sampled } := by
  constructor <;> simp [ScopeAgrees.empty, Writer.activeCounts, Writer.lifecycle, Replay.lifecycle]

theorem active (h : Agrees p w r) : r.activeCollection =
    w.activeCollection.map fun collection => (collection.id, collection.kind) :=
  congrArg (fun lifecycle => lifecycle.2.1) h.lifecycle

theorem nextCollectionId (h : Agrees p w r) : r.nextCollectionId = w.nextCollectionId :=
  congrArg (fun lifecycle => lifecycle.2.2.1) h.lifecycle

theorem pauseSlices (h : Agrees p w r) : r.pauseSlices = w.pauseSlices :=
  congrArg (fun lifecycle => lifecycle.2.2.2) h.lifecycle

theorem mode (h : Agrees p w r) : r.verifyMode = .sampled := by
  have hmode : r.verifyMode = w.verifyMode := congrArg Prod.fst h.lifecycle
  rw [hmode, h.sampled]

theorem activeId (h : Agrees p w r) :
    r.activeCollection.map Prod.fst = w.activeCollection.map ActiveCollection.id := by
  rw [h.active, Option.map_map]
  rfl

/-- The checks of an event of a step, one after the other. -/
theorem applyVerifyStep_ok {stats : TraceStats} {step : SampledStep} {scope located : VerifyScope}
    (hstats : step.verifyIndex < stats.trueCount)
    (hlast : ∀ last ∈ r.verifyLastIndex, last < step.verifyIndex)
    (hid : step.collectionId = r.activeCollection.map Prod.fst)
    (hscope : r.verifyScope "verify_step" = .ok scope)
    (hlocate : scope.locate r.verifyCollectionLedgerTrueCount step = .ok located)
    (haccept : located.accept p check step = .ok (located.addStep check step)) :
    r.applyVerifyStep p stats check (some step) =
      .ok ({ r with
        verifyStepTotal := r.verifyStepTotal + 1
        verifyEmittedCount := r.verifyEmittedCount + 1 }.addStep
          (located.addStep check step) step) := by
  simp only [Replay.applyVerifyStep, check_bind_eq_ok, require_eq_ok]
  refine ⟨hstats, hlast, hid, ?_⟩
  rw [bind_eq_ok]
  refine ⟨scope, hscope, ?_⟩
  rw [bind_eq_ok]
  refine ⟨located, hlocate, ?_⟩
  rw [bind_eq_ok]
  exact ⟨_, haccept, rfl⟩

/-- A step that is left out. -/
theorem skip_step (h : Agrees p w r) (hknown : check ∈ verifyStepChecks)
    (hopen : ∀ collection ∈ w.activeCollection, collection.verifyTerminalSeen = false)
    (hskip : p.retains .sampled (w.nextStep check terminal) = false) :
    Agrees p (w.countStep check terminal) r := by
  have hhead : ∀ index < w.verifyTrueCount + 1, index < p.headWindow → index ∈ r.verifyIndices := by
    intro index hlt hhead
    apply h.head index _ hhead
    have hpast : ¬ w.verifyTrueCount < p.headWindow := by
      intro hnew
      cases hactive : w.activeCollection <;>
        simp [Sampling.retains, Writer.nextStep, hactive, hnew] at hskip
    omega
  have hlast : ∀ last ∈ r.verifyLastIndex, last < w.verifyTrueCount + 1 :=
    fun last hlast => Nat.lt_succ_of_lt (h.last_lt last hlast)
  have htrue := h.trueCount
  have hlifecycle := h.lifecycle
  have hemitted := h.collectionEmitted
  unfold Writer.countStep
  unfold Writer.activeCounts at htrue hemitted
  cases hactive : w.activeCollection with
  | none =>
    have hstep := nextStep_stepIn_unscoped check terminal hactive h.unscopedId
    simp only [hactive] at htrue hemitted
    constructor
    · exact h.sampled
    · simpa [Writer.lifecycle, hactive] using hlifecycle
    · exact h.collections
    · exact h.collectionEnds
    · exact h.totals
    · simp only [Writer.activeCounts, ScopeCounts.count]
      omega
    · exact h.emittedCount
    · simpa only [Writer.activeCounts, hactive] using hemitted
    · exact h.ledger_le
    · exact hlast
    · exact hhead
    · exact h.unscopedId
    · exact h.unscoped.skip hstep hskip
    · simp
  | some collection =>
    obtain ⟨scope, hscope, hagrees⟩ := h.collection collection hactive
    have hstep := nextStep_stepIn_collection check terminal hactive hagrees.id
    have hafter := hagrees.skip hstep (hopen collection hactive) hskip hknown
    simp only [hactive] at htrue hemitted
    constructor
    · exact h.sampled
    · simpa [Writer.lifecycle, Writer.countCollection, hactive] using hlifecycle
    · exact h.collections
    · exact h.collectionEnds
    · exact h.totals
    · simp only [Writer.activeCounts, Writer.countCollection, ScopeCounts.count]
      omega
    · exact h.emittedCount
    · exact hemitted
    · exact h.ledger_le
    · exact hlast
    · exact hhead
    · exact h.unscopedId
    · exact h.unscoped
    · intro other hother
      obtain rfl := Option.some.inj hother
      exact ⟨scope, hscope, hafter⟩

/-- A step that is kept: the checker accepts its event. -/
theorem keep_step (h : Agrees p w r) (hknown : check ∈ verifyStepChecks)
    (hopen : ∀ collection ∈ w.activeCollection, collection.verifyTerminalSeen = false)
    (hkeep : p.retains .sampled (w.nextStep check terminal) = true) {stats : TraceStats}
    (hstats : w.verifyTrueCount < stats.trueCount) :
    ∃ r', r.applyVerifyStep p stats check (some (w.nextStep check terminal)) = .ok r' ∧
      Agrees p (w.countStep check terminal).emitStep r' := by
  have hhead : ∀ index < w.verifyTrueCount + 1, index < p.headWindow →
      index ∈ r.verifyIndices ++ [w.verifyTrueCount] := by
    intro index hlt hhead
    rw [List.mem_append, List.mem_singleton]
    by_cases hnew : index = w.verifyTrueCount
    · exact .inr hnew
    · exact .inl (h.head index (by omega) hhead)
  have hid : (w.nextStep check terminal).collectionId = r.activeCollection.map Prod.fst :=
    h.activeId.symm
  have htrue := h.trueCount
  have hlifecycle := h.lifecycle
  have hemitted := h.collectionEmitted
  have hemittedCount := h.emittedCount
  obtain ⟨hwritten, hreplayed, hemittedTotal⟩ := h.totals
  have hactive_eq := h.active
  unfold Writer.activeCounts at htrue hemitted
  cases hactive : w.activeCollection with
  | none =>
    have hstep := nextStep_stepIn_unscoped check terminal hactive h.unscopedId
    have hpos := hstep.scopeIndex
    simp only [hactive, Option.map_none] at htrue hemitted hactive_eq
    have hscope : r.verifyScope "verify_step" = .ok r.unscopedVerifyScope := by
      simp [Replay.verifyScope, hactive_eq]
    have hlocate : r.unscopedVerifyScope.locate r.verifyCollectionLedgerTrueCount
        (w.nextStep check terminal) = .ok r.unscopedVerifyScope := by
      unfold VerifyScope.locate
      simp only [h.unscopedId, check_bind_eq_ok, require_eq_ok]
      refine ⟨?_, rfl⟩
      rw [hpos]
      exact htrue.trans (by omega)
    have haccept := h.unscoped.accept_ok hstep hkeep (by simp [h.unscopedId])
    refine ⟨_, applyVerifyStep_ok hstats h.last_lt hid hscope hlocate haccept, ?_⟩
    simp only [Replay.addStep, hactive_eq, Writer.countStep, Writer.emitStep, hactive]
    constructor
    · exact h.sampled
    · simpa [Writer.lifecycle, hactive, Replay.lifecycle, hactive_eq] using hlifecycle
    · exact h.collections
    · simpa [hactive_eq] using h.collectionEnds
    · simp only
      omega
    · simp only [Writer.activeCounts, ScopeCounts.count, ScopeCounts.emit]
      omega
    · simp only [ScopeCounts.count, ScopeCounts.emit]
      omega
    · exact hemitted
    · exact h.ledger_le
    · intro last hlast
      obtain rfl := Option.some.inj hlast
      exact Nat.lt_succ_self _
    · exact hhead
    · exact h.unscopedId
    · exact h.unscoped.keep hstep
    · simp
  | some collection =>
    obtain ⟨scope, hscope_eq, hagrees⟩ := h.collection collection hactive
    have hstep := nextStep_stepIn_collection check terminal hactive hagrees.id
    have hpos := hstep.scopeIndex
    simp only [hactive, Option.map_some] at htrue hemitted hactive_eq
    have hscope : r.verifyScope "verify_step" = .ok scope := by
      simp only [Replay.verifyScope, hactive_eq, hscope_eq, check_bind_eq_ok, require_eq_ok]
      exact ⟨hagrees.id, rfl⟩
    obtain ⟨base, hbase, hlocate⟩ :=
      hagrees.locate_ok hstep rfl r.verifyCollectionLedgerTrueCount
    have hafter := hagrees.keep hstep (hopen collection hactive) hknown hbase
    have hterminal : scope.terminalScopeIndex = none := by
      simp [hagrees.terminal, hopen collection hactive]
    have haccept := (hagrees.counts.withBase (some base)).accept_ok
      ⟨hstep.collectionId, hstep.scopeIndex, hstep.checkIndex⟩ hkeep fun _ => hterminal
    refine ⟨_, applyVerifyStep_ok hstats h.last_lt hid hscope hlocate haccept, ?_⟩
    simp only [Replay.addStep, hactive_eq, Writer.countStep, Writer.emitStep]
    rw [hactive]
    constructor
    · exact h.sampled
    · simpa [Writer.lifecycle, Writer.countCollection, hactive, Replay.lifecycle, hactive_eq] using
        hlifecycle
    · exact h.collections
    · simpa [hactive_eq] using h.collectionEnds
    · simp only
      omega
    · simp only [Writer.activeCounts, Writer.countCollection, ScopeCounts.count, ScopeCounts.emit]
      omega
    · simp only
      omega
    · simp only [Writer.activeCounts, Writer.countCollection, ScopeCounts.count, ScopeCounts.emit]
      omega
    · exact h.ledger_le
    · intro last hlast
      obtain rfl := Option.some.inj hlast
      exact Nat.lt_succ_self _
    · exact hhead
    · exact h.unscopedId
    · exact h.unscoped
    · intro other hother
      obtain rfl := Option.some.inj hother
      exact ⟨_, rfl, hafter⟩

end Agrees

/-! ## Callbacks -/

/-- What a verify step leaves once nothing is thrown. -/
inductive StepOutcome (p : Sampling) (w : Writer) (check : String) (size : Option ℕ)
    (terminal : Bool) : Writer × List TraceEvent → Prop where
  | keep (hkeep : p.retains w.verifyMode (w.nextStep check terminal) = true) :
    StepOutcome p w check size terminal ((w.countStep check terminal).emitStep,
      [verifyStepEvent w.verifyMode size check (w.nextStep check terminal)])
  | skip (hskip : p.retains w.verifyMode (w.nextStep check terminal) = false) :
    StepOutcome p w check size terminal (w.countStep check terminal, [])

@[simp] theorem countStep_verifyMode (w : Writer) (check : String) (terminal : Bool) :
    (w.countStep check terminal).verifyMode = w.verifyMode := by
  unfold Writer.countStep
  split <;> rfl

theorem onVerifyStep_cases {p : Sampling} {w : Writer} {check : String} {size : Option ℕ}
    {boundary : TraceVerifyBoundary} {result : Writer × List TraceEvent}
    (hcall : w.onVerifyStep p check size boundary = .ok result) :
    (w.activeCollection = none → boundary ≠ .collectionEnd) ∧
    (∀ collection ∈ w.activeCollection, collection.verifyTerminalSeen = false) ∧
    StepOutcome p w check size (decide (boundary = .collectionEnd)) result := by
  have hrest : ∀ terminal, (if p.retains w.verifyMode (w.nextStep check terminal) = true then
        (.ok ((w.countStep check terminal).emitStep,
          [verifyStepEvent w.verifyMode size check (w.nextStep check terminal)]) :
            Except String (Writer × List TraceEvent))
      else .ok (w.countStep check terminal, [])) = .ok result →
      StepOutcome p w check size terminal result := by
    intro terminal h
    split at h
    · next hkeep => exact Except.ok.inj h ▸ .keep hkeep
    · next hskip => exact Except.ok.inj h ▸ .skip (by simpa using hskip)
  unfold Writer.onVerifyStep at hcall
  cases hactive : w.activeCollection with
  | none =>
    by_cases hend : boundary = .collectionEnd
    · simp [hactive, hend, throw, throwThe, MonadExceptOf.throw, bind, Except.bind] at hcall
    · simp only [hactive, hend, decide_false, countStep_verifyMode] at hcall
      refine ⟨fun _ => hend, by simp, ?_⟩
      simpa only [hend, decide_false] using hrest false hcall
  | some collection =>
    cases hseen : collection.verifyTerminalSeen with
    | true =>
      by_cases hend : boundary = .collectionEnd <;>
        simp [hactive, hseen, hend, throw, throwThe, MonadExceptOf.throw, bind, Except.bind] at hcall
    | false =>
      simp only [hactive, hseen, countStep_verifyMode] at hcall
      refine ⟨by simp, ?_, hrest _ hcall⟩
      intro other hother
      obtain rfl := Option.some.inj hother
      exact hseen

/-- The check of a callback, if it has one, is one that the checker knows. -/
def TraceCall.Known : TraceCall → Prop
  | .verifyStep check _ _ => check ∈ verifyStepChecks
  | _ => True

instance : DecidablePred TraceCall.Known := fun call => by
  cases call <;> unfold TraceCall.Known <;> infer_instance

theorem replayEvents_append {p : Sampling} {stats : TraceStats} (events later : List TraceEvent)
    (r : Replay) :
    Replay.replayEvents p stats r (events ++ later) =
      Replay.replayEvents p stats r events >>= fun r => Replay.replayEvents p stats r later := by
  induction events generalizing r with
  | nil => rfl
  | cons event events ih =>
    simp only [List.cons_append, Replay.replayEvents, ih, bind_assoc]

theorem replayEvents_singleton {p : Sampling} {stats : TraceStats} {r r' : Replay}
    {event : TraceEvent} (hschema : validateEventSchema r.verifyMode event = .ok ())
    (happly : r.apply p stats event = .ok r') :
    Replay.replayEvents p stats r [event] = .ok r' := by
  simp [Replay.replayEvents, hschema, happly, bind, Except.bind]

theorem countStep_trueCount (w : Writer) (check : String) (terminal : Bool) :
    (w.countStep check terminal).verifyTrueCount = w.verifyTrueCount + 1 := by
  unfold Writer.countStep
  split <;> rfl

theorem emitStep_trueCount (w : Writer) : w.emitStep.verifyTrueCount = w.verifyTrueCount := by
  unfold Writer.emitStep
  simp only
  split <;> rfl

/-- No callback takes a step back. -/
theorem onCall_trueCount_le {p : Sampling} {w w' : Writer} {call : TraceCall}
    {events : List TraceEvent} (hcall : w.onCall p call = .ok (w', events)) :
    w.verifyTrueCount ≤ w'.verifyTrueCount := by
  cases call with
  | verifyStep check size boundary =>
    cases (onVerifyStep_cases hcall).2.2 with
    | keep _ => simp [emitStep_trueCount, countStep_trueCount]
    | skip _ => simp [countStep_trueCount]
  | pauseSlice =>
    obtain ⟨rfl, -⟩ := Prod.mk.inj (Except.ok.inj hcall)
    exact Nat.le_refl _
  | collectionBegin kind =>
    simp only [Writer.onCall, Writer.onLogicalCollectionBegin] at hcall
    split at hcall
    · cases hcall
    · obtain ⟨rfl, -⟩ := Prod.mk.inj (Except.ok.inj hcall)
      exact Nat.le_refl _
  | collectionEnd =>
    simp only [Writer.onCall, Writer.onLogicalCollectionEnd] at hcall
    split at hcall
    · cases hcall
    · split at hcall
      · cases hcall
      · obtain ⟨rfl, -⟩ := Prod.mk.inj (Except.ok.inj hcall)
        exact Nat.le_refl _

namespace Agrees

variable {p : Sampling} {w w' : Writer} {r : Replay} {stats : TraceStats}
  {events : List TraceEvent}

theorem verifyStep (h : Agrees p w r) {check : String} {size : Option ℕ}
    {boundary : TraceVerifyBoundary} (hknown : check ∈ verifyStepChecks)
    (hcall : w.onVerifyStep p check size boundary = .ok (w', events))
    (hstats : w'.verifyTrueCount ≤ stats.trueCount) :
    ∃ r', Replay.replayEvents p stats r events = .ok r' ∧ Agrees p w' r' := by
  obtain ⟨hinside, hopen, hcase⟩ := onVerifyStep_cases hcall
  cases hcase with
  | skip hskip =>
    rw [h.sampled] at hskip
    exact ⟨r, rfl, h.skip_step hknown hopen hskip⟩
  | keep hkeep =>
    rw [h.sampled] at hkeep ⊢
    rw [emitStep_trueCount, countStep_trueCount] at hstats
    obtain ⟨r', happly, hafter⟩ := h.keep_step hknown hopen hkeep hstats
    refine ⟨r', replayEvents_singleton ?_ happly, hafter⟩
    simp only [validateEventSchema, verifyStepEvent, h.mode, check_bind_eq_ok, require_eq_ok]
    refine ⟨by simp, hknown, ?_⟩
    intro houtside
    have hnone : w.activeCollection = none := by
      simpa [Writer.nextStep] using houtside
    simpa [Writer.nextStep] using hinside hnone

theorem pauseSlice (h : Agrees p w r) :
    ∃ r', Replay.replayEvents p stats r w.onPauseSlice.2 = .ok r' ∧ Agrees p w.onPauseSlice.1 r' := by
  have hpause := h.pauseSlices
  have hlifecycle := h.lifecycle
  refine ⟨{ r with pauseSlices := r.pauseSlices + 1 }, replayEvents_singleton rfl ?_, ?_⟩
  · simp only [Replay.apply, check_bind_eq_ok, require_eq_ok]
    exact ⟨h.activeId.symm, rfl⟩
  · constructor
    · exact h.sampled
    · simp only [Writer.lifecycle, Replay.lifecycle, Writer.onPauseSlice, Prod.mk.injEq] at hlifecycle ⊢
      exact ⟨hlifecycle.1, hlifecycle.2.1, hlifecycle.2.2.1, by omega⟩
    · exact h.collections
    · exact h.collectionEnds
    · exact h.totals
    · exact h.trueCount
    · exact h.emittedCount
    · exact h.collectionEmitted
    · exact h.ledger_le
    · exact h.last_lt
    · exact h.head
    · exact h.unscopedId
    · exact h.unscoped
    · exact h.collection

theorem collectionBegin (h : Agrees p w r) {kind : TraceCollectionKind}
    (hcall : w.onLogicalCollectionBegin kind = .ok (w', events)) :
    ∃ r', Replay.replayEvents p stats r events = .ok r' ∧ Agrees p w' r' := by
  unfold Writer.onLogicalCollectionBegin at hcall
  split at hcall
  · cases hcall
  · next hactive =>
    obtain ⟨rfl, rfl⟩ := Prod.mk.inj (Except.ok.inj hcall)
    have hnext := h.nextCollectionId
    have hopened := h.collections
    have hended := h.collectionEnds
    have hclosed : r.activeCollection = none := by simp [h.active, hactive]
    refine ⟨{ r with
      activeCollection := some (w.nextCollectionId, kind)
      nextCollectionId := r.nextCollectionId + 1
      collections := r.collections + 1
      collectionVerifyScope := some { collectionId := some w.nextCollectionId } },
      replayEvents_singleton rfl ?_, ?_⟩
    · simp only [Replay.apply, check_bind_eq_ok, require_eq_ok, h.mode, if_true]
      exact ⟨hclosed, hnext.symm, rfl⟩
    · have htrue := h.trueCount
      have hemitted := h.collectionEmitted
      have hlifecycle := h.lifecycle
      simp only [Writer.activeCounts, hactive] at htrue hemitted
      constructor
      · exact h.sampled
      · simp only [Writer.lifecycle, Replay.lifecycle, Prod.mk.injEq, Option.map_some] at hlifecycle ⊢
        exact ⟨hlifecycle.1, trivial, by omega, hlifecycle.2.2.2⟩
      · simp only
        omega
      · simp only [hclosed, Option.toList_none, Option.toList_some, List.length_nil,
          List.length_singleton] at hended ⊢
        omega
      · exact h.totals
      · exact htrue
      · exact h.emittedCount
      · exact hemitted
      · exact h.ledger_le
      · exact h.last_lt
      · exact h.head
      · exact h.unscopedId
      · exact h.unscoped
      · intro collection hcollection
        obtain rfl := Option.some.inj hcollection
        exact ⟨_, rfl, CollectionAgrees.empty p w.verifyTrueCount w.nextCollectionId kind⟩

/-- The checks at the end of a collection. -/
theorem finish_ok (h : Agrees p w r) {collection : ActiveCollection}
    (hactive : w.activeCollection = some collection)
    (hterminal : collection.counts.trueCount = 0 ∨ collection.verifyTerminalSeen)
    (hp : 0 < p.stride) :
    r.finishSampledVerifyCollection p collection.id
      ⟨collection.counts.trueCount, collection.counts.emittedCount, collection.verifyChecks⟩ =
      .ok { r with
        verifyCollectionLedgerTrueCount :=
          r.verifyCollectionLedgerTrueCount + collection.counts.trueCount
        verifyCollectionLedgerEmittedCount :=
          r.verifyCollectionLedgerEmittedCount + collection.counts.emittedCount
        collectionVerifyScope := none } := by
  obtain ⟨scope, hscope, hagrees⟩ := h.collection collection hactive
  have hcounts := hagrees.counts
  simp only [Replay.finishSampledVerifyCollection, hscope, check_bind_eq_ok, require_eq_ok]
  refine ⟨hagrees.id, hcounts.emittedCount.symm, hagrees.order.symm, hcounts.below, ?_⟩
  by_cases hzero : collection.counts.trueCount = 0
  · have hnone : collection.verifyChecks = [] := by
      rw [List.eq_nil_iff_forall_not_mem]
      intro check hcheck
      have hle := hcounts.check_le check
      exact (hagrees.counted check).mp hcheck (by omega)
    have hunseen : collection.verifyTerminalSeen = false := by
      rw [Bool.eq_false_iff]
      intro hseen
      have hpos := hagrees.terminal_pos hseen
      omega
    have hemitted := hcounts.emittedCount
    have hle := hcounts.emitted_le
    rw [if_pos hzero, check_bind_eq_ok, require_eq_ok]
    refine ⟨⟨by omega, hnone, ?_⟩, rfl⟩
    simp [hagrees.terminal, hunseen]
  · have hseen : collection.verifyTerminalSeen = true := hterminal.resolve_left hzero
    have hstride := requireStride_ok hp hcounts.sorted hcounts.below hcounts.stride "gc"
    simp only [if_neg hzero, hstride, check_bind_eq_ok, require_eq_ok]
    refine ⟨trivial, ?_, rfl⟩
    rw [hagrees.terminal, hseen]
    rfl

theorem collectionEnd (h : Agrees p w r) (hp : 0 < p.stride)
    (hcall : w.onLogicalCollectionEnd = .ok (w', events)) :
    ∃ r', Replay.replayEvents p stats r events = .ok r' ∧ Agrees p w' r' := by
  unfold Writer.onLogicalCollectionEnd at hcall
  split at hcall
  · cases hcall
  next collection hactive =>
  split at hcall
  · cases hcall
  next hterminal =>
  obtain ⟨rfl, rfl⟩ := Prod.mk.inj (Except.ok.inj hcall)
  obtain ⟨scope, hscope, hagrees⟩ := h.collection collection hactive
  have hopen : r.activeCollection = some (collection.id, collection.kind) := by
    simp [h.active, hactive]
  have hdone : collection.counts.trueCount = 0 ∨ collection.verifyTerminalSeen := by
    simp only [h.sampled, true_and, not_and, Bool.not_eq_true'] at hterminal
    by_cases hzero : collection.counts.trueCount = 0
    · exact .inl hzero
    · exact .inr (by simpa using hterminal hzero)
  have hfinish := h.finish_ok hactive hdone hp
  have htrue := h.trueCount
  have hemitted := h.collectionEmitted
  have hended := h.collectionEnds
  have hlifecycle := h.lifecycle
  simp only [Writer.activeCounts, hactive] at htrue hemitted
  refine ⟨{ r with
    verifyCollectionLedgerTrueCount :=
      r.verifyCollectionLedgerTrueCount + collection.counts.trueCount
    verifyCollectionLedgerEmittedCount :=
      r.verifyCollectionLedgerEmittedCount + collection.counts.emittedCount
    collectionVerifyScope := none
    activeCollection := none
    collectionEnds := r.collectionEnds + 1 }, replayEvents_singleton ?_ ?_, ?_⟩
  · simp only [validateEventSchema, h.mode, h.sampled, Writer.verifyLedger, check_bind_eq_ok,
      require_eq_ok]
    refine ⟨by simp, ?_, hagrees.counts.emitted_le⟩
    exact requireVerifyChecks_ok (by simpa using hagrees.nodup) hagrees.known
  · simp only [Replay.apply, h.sampled, Writer.verifyLedger, check_bind_eq_ok, require_eq_ok]
    refine ⟨hopen, ?_⟩
    rw [bind_eq_ok]
    exact ⟨_, hfinish, rfl⟩
  · constructor
    · exact h.sampled
    · simp only [Writer.lifecycle, Replay.lifecycle, Prod.mk.injEq, Option.map_none] at hlifecycle ⊢
      exact ⟨hlifecycle.1, trivial, hlifecycle.2.2⟩
    · exact h.collections
    · simpa [hopen] using hended
    · exact h.totals
    · simp only [Writer.activeCounts]
      omega
    · exact h.emittedCount
    · simp only [Writer.activeCounts]
      omega
    · exact Nat.add_le_add h.ledger_le hagrees.counts.emitted_le
    · exact h.last_lt
    · exact h.head
    · exact h.unscopedId
    · exact h.unscoped
    · simp

/-- Each callback of the writer is followed by the replay. -/
theorem onCall (h : Agrees p w r) (hp : 0 < p.stride) {call : TraceCall} (hknown : call.Known)
    (hcall : w.onCall p call = .ok (w', events)) (hstats : w'.verifyTrueCount ≤ stats.trueCount) :
    ∃ r', Replay.replayEvents p stats r events = .ok r' ∧ Agrees p w' r' := by
  cases call with
  | verifyStep check size boundary => exact h.verifyStep hknown hcall hstats
  | pauseSlice =>
    obtain ⟨rfl, rfl⟩ := Prod.mk.inj (Except.ok.inj hcall)
    exact h.pauseSlice
  | collectionBegin kind => exact h.collectionBegin hcall
  | collectionEnd => exact h.collectionEnd hp hcall

end Agrees

/-! ## Runs -/

theorem record_cons {p : Sampling} {w w' : Writer} {call : TraceCall} {calls : List TraceCall}
    {events : List TraceEvent} (h : w.record p (call :: calls) = .ok (w', events)) :
    ∃ w₁ first later, w.onCall p call = .ok (w₁, first) ∧ w₁.record p calls = .ok (w', later) ∧
      events = first ++ later := by
  simp only [Writer.record, bind_eq_ok] at h
  obtain ⟨⟨w₁, first⟩, hcall, ⟨w₂, later⟩, hrest, hpure⟩ := h
  obtain ⟨rfl, rfl⟩ := Prod.mk.inj (Except.ok.inj hpure)
  exact ⟨w₁, first, later, hcall, hrest, rfl⟩

theorem record_trueCount_le {p : Sampling} {w w' : Writer} {calls : List TraceCall}
    {events : List TraceEvent} (h : w.record p calls = .ok (w', events)) :
    w.verifyTrueCount ≤ w'.verifyTrueCount := by
  induction calls generalizing w events with
  | nil =>
    obtain ⟨rfl, -⟩ := Prod.mk.inj (Except.ok.inj h)
    exact Nat.le_refl _
  | cons call calls ih =>
    obtain ⟨w₁, first, later, hcall, hrest, -⟩ := record_cons h
    exact (onCall_trueCount_le hcall).trans (ih hrest)

/-- The replay follows the writer through a run. -/
theorem Agrees.record {p : Sampling} {w w' : Writer} {r : Replay} {stats : TraceStats}
    {calls : List TraceCall} {events : List TraceEvent} (h : Agrees p w r) (hp : 0 < p.stride)
    (hknown : ∀ call ∈ calls, call.Known) (hrun : w.record p calls = .ok (w', events))
    (hstats : w'.verifyTrueCount ≤ stats.trueCount) :
    ∃ r', Replay.replayEvents p stats r events = .ok r' ∧ Agrees p w' r' := by
  induction calls generalizing w r events with
  | nil =>
    obtain ⟨rfl, rfl⟩ := Prod.mk.inj (Except.ok.inj hrun)
    exact ⟨r, rfl, h⟩
  | cons call calls ih =>
    obtain ⟨w₁, first, later, hcall, hrest, rfl⟩ := record_cons hrun
    have hle := (record_trueCount_le hrest).trans hstats
    obtain ⟨r₁, hfirst, hagrees⟩ := h.onCall hp (hknown call (by simp)) hcall hle
    obtain ⟨r', hlater, hend⟩ := ih hagrees (fun other hother => hknown other (by simp [hother])) hrest
    refine ⟨r', ?_, hend⟩
    rw [replayEvents_append, bind_eq_ok]
    exact ⟨r₁, hfirst, hlater⟩

/-- What the statistics say of the writer at the end. -/
theorem writeStats_ok {p : Sampling} {w : Writer} {stats : TraceStats}
    (h : w.writeStats p = .ok stats) : w.activeCollection = none ∧ stats = {
      pauseSlices := w.pauseSlices
      collectionCount := w.nextCollectionId
      verifyStepTotal := w.verifyStepTotal
      mode := w.verifyMode
      headWindow := p.headWindow
      stride := p.stride
      retentionRule := w.verifyMode.retentionRule
      trueCount := w.verifyTrueCount
      emittedCount := w.verifyEmittedCount
      unscopedTrueCount := w.unscoped.trueCount
      unscopedEmittedCount := w.unscoped.emittedCount } := by
  unfold Writer.writeStats at h
  split at h
  · cases h
  · next hactive => exact ⟨hactive, (Except.ok.inj h).symm⟩

/-- The comparison with the statistics at the end. -/
theorem Agrees.verifyStats_ok {p : Sampling} {w : Writer} {r : Replay} {stats : TraceStats}
    (h : Agrees p w r) (hp : 0 < p.stride) (hstats : w.writeStats p = .ok stats) :
    r.verifyStats p stats = .ok () := by
  obtain ⟨hclosed, hfinal⟩ := writeStats_ok hstats
  have hnone : r.activeCollection = none := by simp [h.active, hclosed]
  have hopened := h.collections
  have hended := h.collectionEnds
  have hnext := h.nextCollectionId
  have htrue := h.trueCount
  have hemitted := h.emittedCount
  have hcollection := h.collectionEmitted
  have hunscoped := h.unscoped.emittedCount
  obtain ⟨hwritten, hreplayed, htotal⟩ := h.totals
  simp only [hnone, Option.toList_none, List.length_nil] at hended
  simp only [Writer.activeCounts, hclosed] at htrue hcollection
  have hledger : r.verifyVerifyEventLedgers p stats = .ok () := by
    rw [hfinal]
    simp only [Replay.verifyVerifyEventLedgers, h.mode, check_bind_eq_ok, require_eq_ok]
    refine ⟨?_, h.unscoped.below, ?_, by omega, by omega⟩
    · intro index hlt
      rw [Nat.lt_min] at hlt
      exact h.head index hlt.2 hlt.1
    · exact requireStride_ok hp h.unscoped.sorted h.unscoped.below h.unscoped.stride "stats"
  simp only [Replay.verifyStats, check_bind_eq_ok, require_eq_ok]
  refine ⟨hnone, by omega, ?_, ?_, hledger, ?_⟩ <;> rw [hfinal]
  · exact h.pauseSlices.symm
  · exact hnext.symm.trans hopened.symm
  · exact hwritten.trans hreplayed.symm

/-- The checker accepts what the writer writes, and ends in step with it. -/
theorem writeTrace_accepted {p : Sampling} (hp : 0 < p.stride) {calls : List TraceCall}
    (hknown : ∀ call ∈ calls, call.Known) {events : List TraceEvent} {stats : TraceStats}
    (h : writeTrace p .sampled calls = .ok (events, stats)) :
    ∃ w r, Writer.record p { verifyMode := .sampled } calls = .ok (w, events) ∧
      w.writeStats p = .ok stats ∧ checkTraceBundle p events stats = .ok r ∧ Agrees p w r := by
  simp only [writeTrace, bind_eq_ok] at h
  obtain ⟨⟨w, written⟩, hrun, final, hstats, hpure⟩ := h
  obtain ⟨rfl, rfl⟩ := Prod.mk.inj (Except.ok.inj hpure)
  replace hstats : w.writeStats p = .ok final := hstats
  have htrue : final.trueCount = w.verifyTrueCount := by
    rw [(writeStats_ok hstats).2]
  obtain ⟨r, hreplay, hagrees⟩ := (Agrees.start p).record hp hknown hrun (Nat.le_of_eq htrue.symm)
  refine ⟨w, r, hrun, hstats, ?_, hagrees⟩
  have hend := hagrees.verifyStats_ok hp hstats
  have hmode : final.mode = .sampled := by
    rw [(writeStats_ok hstats).2]
    exact hagrees.sampled
  have hschema : validateStatsSchema p final = .ok () := by
    obtain ⟨hclosed, hfinal⟩ := writeStats_ok hstats
    have hcounts := hagrees.trueCount
    have hemitted := hagrees.emittedCount
    have hscoped := hagrees.collectionEmitted
    have hle := hagrees.unscoped.emitted_le
    have hledger := hagrees.ledger_le
    have hnone : w.activeCounts = {} := by simp [Writer.activeCounts, hclosed]
    rw [hnone] at hcounts hscoped
    simp only at hcounts hscoped
    rw [hfinal]
    simp only [validateStatsSchema, check_bind_eq_ok, require_eq_ok, hagrees.sampled]
    exact ⟨⟨trivial, trivial, trivial⟩, by omega, by simp, hagrees.totals.1.symm⟩
  simp only [checkTraceBundle, hmode, check_bind_eq_ok]
  refine ⟨hschema, ?_⟩
  rw [bind_eq_ok]
  refine ⟨r, hreplay, ?_⟩
  rw [check_bind_eq_ok]
  exact ⟨hend, rfl⟩

end LanguageRuntime.Trace
