import LanguageRuntime.Trace.LedgerTheorems
import Mathlib.Data.List.Induction

/-!
# The writer counts what happened

The verify steps of a run, each with the collection that it happened in, are a list that the
writer never sees as a whole. Its counters, its records and its ledgers are compared with that
list: the records are the list's positions that the retention rule keeps, and the counters are
numbers of its entries.
-/

namespace LanguageRuntime.Trace

/-! ## What happened -/

/-- A verify step as it happened: the collection that was open, the check and the boundary. -/
structure ScopedStep where
  collectionId : Option ℕ
  check : String
  terminal : Bool
deriving DecidableEq, Repr

/-- The steps of a run in which a collection may be open already. -/
def scopedSteps : Option ℕ → ℕ → List TraceCall → List ScopedStep
  | _, _, [] => []
  | active, next, .verifyStep check _ boundary :: calls =>
    ⟨active, check, decide (boundary = .collectionEnd)⟩ :: scopedSteps active next calls
  | active, next, .pauseSlice :: calls => scopedSteps active next calls
  | _, next, .collectionBegin _ :: calls => scopedSteps (some next) (next + 1) calls
  | _, next, .collectionEnd :: calls => scopedSteps none next calls

/-- How many steps happened in a scope. -/
def scopeCount (scope : Option ℕ) (happened : List ScopedStep) : ℕ :=
  happened.countP fun step => step.collectionId = scope

/-- How many steps of a check happened in a scope. -/
def checkCount (scope : Option ℕ) (check : String) (happened : List ScopedStep) : ℕ :=
  happened.countP fun step => step.collectionId = scope ∧ step.check = check

/-- The checks of a list, each at its first occurrence. -/
def firstOccurrences (checks : List String) : List String :=
  checks.foldl (fun seen check => if check ∈ seen then seen else seen ++ [check]) []

/-- The checks of a scope in the order in which they first happened. -/
def scopeChecks (scope : Option ℕ) (happened : List ScopedStep) : List String :=
  firstOccurrences ((happened.filter fun step => step.collectionId = scope).map ScopedStep.check)

/-- The true position of a step that follows others. -/
def truePosition (before : List ScopedStep) (step : ScopedStep) : SampledStep where
  verifyIndex := before.length
  collectionId := step.collectionId
  scopeIndex := scopeCount step.collectionId before
  checkIndex := checkCount step.collectionId step.check before
  terminal := step.terminal

@[simp] theorem truePosition_collectionId (before : List ScopedStep) (step : ScopedStep) :
    (truePosition before step).collectionId = step.collectionId := rfl

/-- The true positions of the steps that follow others. -/
def truePositions : List ScopedStep → List ScopedStep → List (String × SampledStep)
  | _, [] => []
  | before, step :: later =>
    (step.check, truePosition before step) :: truePositions (before ++ [step]) later

/-- The records that the retention rule keeps. -/
def sampledRecords (p : Sampling) (happened : List ScopedStep) : List (String × SampledStep) :=
  (truePositions [] happened).filter fun record => p.retains .sampled record.2

/-- How many steps of a scope the retention rule keeps. -/
def scopeEmitted (p : Sampling) (scope : Option ℕ) (happened : List ScopedStep) : ℕ :=
  (sampledRecords p happened).countP fun record => record.2.collectionId = scope

/-- The sampled record in an event. -/
def TraceEvent.record? : TraceEvent → Option (String × SampledStep)
  | .verifyStep _ check (some step) => some (check, step)
  | _ => none

/-! ## One more step -/

@[simp] theorem scopeCount_append (scope : Option ℕ) (xs ys : List ScopedStep) :
    scopeCount scope (xs ++ ys) = scopeCount scope xs + scopeCount scope ys :=
  List.countP_append

@[simp] theorem checkCount_append (scope : Option ℕ) (check : String) (xs ys : List ScopedStep) :
    checkCount scope check (xs ++ ys) = checkCount scope check xs + checkCount scope check ys :=
  List.countP_append

@[simp] theorem scopeCount_singleton (scope : Option ℕ) (step : ScopedStep) :
    scopeCount scope [step] = if step.collectionId = scope then 1 else 0 := by
  simp [scopeCount, List.countP_singleton]

@[simp] theorem checkCount_singleton (scope : Option ℕ) (check : String) (step : ScopedStep) :
    checkCount scope check [step] =
      if step.collectionId = scope ∧ step.check = check then 1 else 0 := by
  simp [checkCount, List.countP_singleton]

theorem firstOccurrences_snoc (checks : List String) (check : String) :
    firstOccurrences (checks ++ [check]) =
      if check ∈ firstOccurrences checks then firstOccurrences checks
      else firstOccurrences checks ++ [check] := by
  rw [firstOccurrences, List.foldl_append]
  rfl

@[simp] theorem mem_firstOccurrences (checks : List String) (check : String) :
    check ∈ firstOccurrences checks ↔ check ∈ checks := by
  induction checks using List.reverseRecOn with
  | nil => simp [firstOccurrences]
  | append_singleton checks last ih =>
    rw [firstOccurrences_snoc, List.mem_append, List.mem_singleton, ← ih]
    split
    · next hmem =>
      constructor
      · exact Or.inl
      · rintro (hold | rfl)
        · exact hold
        · exact hmem
    · rw [List.mem_append, List.mem_singleton]

/-- A check has been counted if and only if it is among the checks of its scope. -/
theorem mem_scopeChecks (scope : Option ℕ) (happened : List ScopedStep) (check : String) :
    check ∈ scopeChecks scope happened ↔ checkCount scope check happened ≠ 0 := by
  simp only [scopeChecks, mem_firstOccurrences, List.mem_map, List.mem_filter, checkCount, ne_eq,
    List.countP_eq_zero, decide_eq_true_eq, not_forall, not_not]
  constructor
  · rintro ⟨step, ⟨hmem, hscope⟩, hcheck⟩
    exact ⟨step, hmem, hscope, hcheck⟩
  · rintro ⟨step, hmem, hscope, hcheck⟩
    exact ⟨step, ⟨hmem, hscope⟩, hcheck⟩

theorem scopeChecks_snoc_same {scope : Option ℕ} (happened : List ScopedStep) (check : String)
    (terminal : Bool) :
    scopeChecks scope (happened ++ [⟨scope, check, terminal⟩]) =
      if checkCount scope check happened = 0 then scopeChecks scope happened ++ [check]
      else scopeChecks scope happened := by
  have hmem := mem_scopeChecks scope happened check
  unfold scopeChecks at hmem ⊢
  simp only [List.filter_append, List.map_append, List.filter_cons, decide_true, if_true,
    List.filter_nil, List.map_cons, List.map_nil, firstOccurrences_snoc]
  by_cases hzero : checkCount scope check happened = 0 <;> simp_all

theorem scopeChecks_snoc_other {scope : Option ℕ} (happened : List ScopedStep)
    {step : ScopedStep} (hother : step.collectionId ≠ scope) :
    scopeChecks scope (happened ++ [step]) = scopeChecks scope happened := by
  simp [scopeChecks, List.filter_append, hother]

theorem truePositions_append (before xs ys : List ScopedStep) :
    truePositions before (xs ++ ys) =
      truePositions before xs ++ truePositions (before ++ xs) ys := by
  induction xs generalizing before with
  | nil => simp [truePositions]
  | cons step xs ih => simp [truePositions, ih]

/-- One more step is one more record if the rule keeps it. -/
theorem sampledRecords_snoc (p : Sampling) (happened : List ScopedStep) (step : ScopedStep) :
    sampledRecords p (happened ++ [step]) = sampledRecords p happened ++
      if p.retains .sampled (truePosition happened step) then
        [(step.check, truePosition happened step)] else [] := by
  simp only [sampledRecords, truePositions_append, List.nil_append, truePositions,
    List.filter_append, List.filter_cons, List.filter_nil]

theorem scopeEmitted_snoc (p : Sampling) (scope : Option ℕ) (happened : List ScopedStep)
    (step : ScopedStep) :
    scopeEmitted p scope (happened ++ [step]) = scopeEmitted p scope happened +
      if p.retains .sampled (truePosition happened step) ∧ step.collectionId = scope then 1
      else 0 := by
  simp only [scopeEmitted, sampledRecords_snoc, List.countP_append]
  split
  · next hkeep =>
    by_cases hscope : step.collectionId = scope <;> simp [hkeep, hscope]
  · next hskip => simp [hskip]

/-! ## Counters -/

/-- The counters of a scope are what happened in it. -/
structure ScopeCounts.CountsOf (counts : ScopeCounts) (p : Sampling) (scope : Option ℕ)
    (happened : List ScopedStep) : Prop where
  trueCount : counts.trueCount = scopeCount scope happened
  checkCounts : ∀ check, counts.checkCounts check = checkCount scope check happened
  emittedCount : counts.emittedCount = scopeEmitted p scope happened

/-- The counters of the writer are what happened. -/
structure Writer.CountsOf (w : Writer) (p : Sampling) (happened : List ScopedStep) : Prop where
  trueCount : w.verifyTrueCount = happened.length
  emittedCount : w.verifyEmittedCount = (sampledRecords p happened).length
  unscoped : w.unscoped.CountsOf p none happened
  collection : ∀ collection ∈ w.activeCollection,
    collection.counts.CountsOf p (some collection.id) happened ∧
      collection.verifyChecks = scopeChecks (some collection.id) happened

namespace ScopeCounts.CountsOf

variable {p : Sampling} {counts : ScopeCounts} {scope : Option ℕ} {happened : List ScopedStep}
  {step : ScopedStep}

/-- A step of the scope that the rule leaves out. -/
theorem skip (h : counts.CountsOf p scope happened) (hscope : step.collectionId = scope)
    (hskip : p.retains .sampled (truePosition happened step) = false) :
    (counts.count step.check).CountsOf p scope (happened ++ [step]) := by
  constructor
  · simp [ScopeCounts.count, hscope, h.trueCount]
  · intro check
    have hcount := h.checkCounts check
    by_cases hsame : check = step.check
    · subst hsame
      simp [ScopeCounts.count, hscope, hcount]
    · have hne : ¬ step.check = check := fun heq => hsame heq.symm
      simp [ScopeCounts.count, hsame, hne, hcount]
  · simp [scopeEmitted_snoc, hskip, ScopeCounts.count, h.emittedCount]

/-- A step of the scope that the rule keeps. -/
theorem keep (h : counts.CountsOf p scope happened) (hscope : step.collectionId = scope)
    (hkeep : p.retains .sampled (truePosition happened step) = true) :
    (counts.count step.check).emit.CountsOf p scope (happened ++ [step]) := by
  constructor
  · simp [ScopeCounts.count, ScopeCounts.emit, hscope, h.trueCount]
  · intro check
    have hcount := h.checkCounts check
    by_cases hsame : check = step.check
    · subst hsame
      simp [ScopeCounts.count, ScopeCounts.emit, hscope, hcount]
    · have hne : ¬ step.check = check := fun heq => hsame heq.symm
      simp [ScopeCounts.count, ScopeCounts.emit, hsame, hne, hcount]
  · simp [scopeEmitted_snoc, hkeep, hscope, ScopeCounts.count, ScopeCounts.emit, h.emittedCount]

/-- A step of another scope. -/
theorem other (h : counts.CountsOf p scope happened) (hscope : step.collectionId ≠ scope) :
    counts.CountsOf p scope (happened ++ [step]) := by
  constructor
  · simp [hscope, h.trueCount]
  · intro check
    simp [hscope, h.checkCounts]
  · simp [scopeEmitted_snoc, hscope, h.emittedCount]

end ScopeCounts.CountsOf

/-! ## The history of a run -/

/-- The ledger of a collection is what happened in it. -/
structure VerifyLedger.CountsOf (ledger : VerifyLedger) (p : Sampling) (id : ℕ)
    (happened : List ScopedStep) : Prop where
  trueCount : ledger.trueCount = scopeCount (some id) happened
  emittedCount : ledger.emittedCount = scopeEmitted p (some id) happened
  checks : ledger.checks = scopeChecks (some id) happened

theorem VerifyLedger.CountsOf.other {ledger : VerifyLedger} {p : Sampling} {id : ℕ}
    {happened : List ScopedStep} {step : ScopedStep} (h : ledger.CountsOf p id happened)
    (hscope : step.collectionId ≠ some id) : ledger.CountsOf p id (happened ++ [step]) := by
  constructor
  · simp [hscope, h.trueCount]
  · simp [scopeEmitted_snoc, hscope, h.emittedCount]
  · rw [scopeChecks_snoc_other happened hscope, h.checks]

/-- The writer after some steps and the events that it has written about them. -/
structure History (p : Sampling) (w : Writer) (happened : List ScopedStep)
    (written : List TraceEvent) : Prop where
  sampled : w.verifyMode = .sampled
  counts : w.CountsOf p happened
  scopes_lt : ∀ step ∈ happened, ∀ id ∈ step.collectionId, id < w.nextCollectionId
  active_lt : ∀ collection ∈ w.activeCollection, collection.id < w.nextCollectionId
  records : written.filterMap TraceEvent.record? = sampledRecords p happened
  ledgers : ∀ id kind ledger, .collectionEnd id kind (some ledger) ∈ written →
    ledger.CountsOf p id happened ∧ id < w.nextCollectionId ∧
      ∀ collection ∈ w.activeCollection, collection.id ≠ id
  terminal : ∀ step ∈ happened, step.terminal → ∀ collection ∈ w.activeCollection,
    step.collectionId = some collection.id → collection.verifyTerminalSeen
  terminal_scoped : ∀ step ∈ happened, step.terminal → step.collectionId.isSome
  last : happened.Pairwise fun step later =>
    step.terminal → later.collectionId ≠ step.collectionId

/-- The step that a callback makes, in the collection that is open. -/
def Writer.scopedStep (w : Writer) (check : String) (terminal : Bool) : ScopedStep :=
  ⟨w.activeCollection.map ActiveCollection.id, check, terminal⟩

namespace History

variable {p : Sampling} {w w' : Writer} {happened : List ScopedStep} {written : List TraceEvent}
  {check : String} {terminal : Bool}

theorem start (p : Sampling) : History p { verifyMode := .sampled } [] [] := by
  have hcounts : ScopeCounts.CountsOf {} p none [] := by
    constructor <;> simp [scopeCount, checkCount, scopeEmitted, sampledRecords, truePositions]
  have hwriter : Writer.CountsOf { verifyMode := .sampled } p [] :=
    ⟨rfl, rfl, hcounts, by simp⟩
  constructor <;> simp [hwriter, sampledRecords, truePositions]

/-- The position that the writer gives a step is the true one. -/
theorem nextStep_eq (h : History p w happened written) :
    w.nextStep check terminal = truePosition happened (w.scopedStep check terminal) := by
  cases hactive : w.activeCollection with
  | none =>
    have hscope := h.counts.unscoped
    simp [Writer.nextStep, truePosition, Writer.scopedStep, hactive, h.counts.trueCount,
      hscope.trueCount, hscope.checkCounts]
  | some collection =>
    have hscope := (h.counts.collection collection hactive).1
    simp [Writer.nextStep, truePosition, Writer.scopedStep, hactive, h.counts.trueCount,
      hscope.trueCount, hscope.checkCounts]

/-- The counters after a step that the rule leaves out. -/
theorem counts_skip (h : History p w happened written)
    (hskip : p.retains .sampled (w.nextStep check terminal) = false) :
    (w.countStep check terminal).CountsOf p (happened ++ [w.scopedStep check terminal]) := by
  rw [h.nextStep_eq] at hskip
  have hrecords : sampledRecords p (happened ++ [w.scopedStep check terminal]) =
      sampledRecords p happened := by
    simp [sampledRecords_snoc, hskip]
  unfold Writer.countStep
  cases hactive : w.activeCollection with
  | none =>
    have hscope : (w.scopedStep check terminal).collectionId = none := by
      simp [Writer.scopedStep, hactive]
    constructor
    · simp [h.counts.trueCount]
    · simp [hrecords, h.counts.emittedCount]
    · exact h.counts.unscoped.skip hscope hskip
    · simp
  | some collection =>
    have hscope : (w.scopedStep check terminal).collectionId = some collection.id := by
      simp [Writer.scopedStep, hactive]
    obtain ⟨hcounts, hchecks⟩ := h.counts.collection collection hactive
    constructor
    · simp [h.counts.trueCount]
    · simp [hrecords, h.counts.emittedCount]
    · exact h.counts.unscoped.other (by simp [hscope])
    · intro other hother
      obtain rfl := Option.some.inj hother
      refine ⟨hcounts.skip hscope hskip, ?_⟩
      simp [Writer.countCollection, Writer.scopedStep, hactive, scopeChecks_snoc_same,
        hcounts.checkCounts, hchecks]

/-- The counters after a step that the rule keeps. -/
theorem counts_keep (h : History p w happened written)
    (hkeep : p.retains .sampled (w.nextStep check terminal) = true) :
    (w.countStep check terminal).emitStep.CountsOf p
      (happened ++ [w.scopedStep check terminal]) := by
  rw [h.nextStep_eq] at hkeep
  have hrecords : (sampledRecords p (happened ++ [w.scopedStep check terminal])).length =
      (sampledRecords p happened).length + 1 := by
    simp [sampledRecords_snoc, hkeep]
  unfold Writer.countStep Writer.emitStep
  cases hactive : w.activeCollection with
  | none =>
    have hscope : (w.scopedStep check terminal).collectionId = none := by
      simp [Writer.scopedStep, hactive]
    simp only
    constructor
    · simp [h.counts.trueCount]
    · simp [hrecords, h.counts.emittedCount]
    · exact h.counts.unscoped.keep hscope hkeep
    · simp
  | some collection =>
    have hscope : (w.scopedStep check terminal).collectionId = some collection.id := by
      simp [Writer.scopedStep, hactive]
    obtain ⟨hcounts, hchecks⟩ := h.counts.collection collection hactive
    constructor
    · simp [h.counts.trueCount]
    · simp [hrecords, h.counts.emittedCount]
    · exact h.counts.unscoped.other (by simp [hscope])
    · intro other hother
      obtain rfl := Option.some.inj hother
      refine ⟨hcounts.keep hscope hkeep, ?_⟩
      simp [Writer.countCollection, Writer.scopedStep, hactive, scopeChecks_snoc_same,
        hcounts.checkCounts, hchecks]

/-- One more step, with the events that the writer writes about it. -/
theorem step (h : History p w happened written) {events : List TraceEvent}
    (hopen : ∀ collection ∈ w.activeCollection, collection.verifyTerminalSeen = false)
    (hinside : w.activeCollection = none → terminal = false)
    (hmode : w'.verifyMode = w.verifyMode) (hnext : w'.nextCollectionId = w.nextCollectionId)
    (hcounts : w'.CountsOf p (happened ++ [w.scopedStep check terminal]))
    (hactive : ∀ after ∈ w'.activeCollection, ∃ collection ∈ w.activeCollection,
      after.id = collection.id ∧ (terminal → after.verifyTerminalSeen))
    (hrecords : events.filterMap TraceEvent.record? =
      if p.retains .sampled (truePosition happened (w.scopedStep check terminal)) then
        [(check, truePosition happened (w.scopedStep check terminal))] else [])
    (hends : ∀ id kind ledger, .collectionEnd id kind ledger ∉ events) :
    History p w' (happened ++ [w.scopedStep check terminal]) (written ++ events) := by
  constructor
  · rw [hmode, h.sampled]
  · exact hcounts
  · intro step hstep id hid
    rw [hnext]
    rw [List.mem_append, List.mem_singleton] at hstep
    rcases hstep with hold | rfl
    · exact h.scopes_lt step hold id hid
    · obtain ⟨collection, hcollection, rfl⟩ := Option.map_eq_some_iff.mp hid
      exact h.active_lt collection hcollection
  · intro after hafter
    obtain ⟨collection, hcollection, hid, -⟩ := hactive after hafter
    rw [hnext, hid]
    exact h.active_lt collection hcollection
  · rw [List.filterMap_append, h.records, hrecords, sampledRecords_snoc]
    rfl
  · intro id kind ledger hmem
    have hold : .collectionEnd id kind (some ledger) ∈ written :=
      (List.mem_append.mp hmem).resolve_right (hends id kind (some ledger))
    obtain ⟨hledger, hlt, hne⟩ := h.ledgers id kind ledger hold
    refine ⟨hledger.other ?_, hnext ▸ hlt, ?_⟩
    · intro hscope
      obtain ⟨collection, hcollection, hid⟩ := Option.map_eq_some_iff.mp hscope
      exact hne collection hcollection hid
    · intro after hafter
      obtain ⟨collection, hcollection, hid, -⟩ := hactive after hafter
      rw [hid]
      exact hne collection hcollection
  · intro step hstep hterminal after hafter hscope
    obtain ⟨collection, hcollection, hid, hseen⟩ := hactive after hafter
    rw [List.mem_append, List.mem_singleton] at hstep
    rcases hstep with hold | rfl
    · -- an earlier terminal of this collection would have closed it to the step
      have hclosed := h.terminal step hold hterminal collection hcollection (hid ▸ hscope)
      simp [hopen collection hcollection] at hclosed
    · exact hseen hterminal
  · intro step hstep hterminal
    rw [List.mem_append, List.mem_singleton] at hstep
    rcases hstep with hold | rfl
    · exact h.terminal_scoped step hold hterminal
    · cases hnone : w.activeCollection with
      | none => simp [Writer.scopedStep, hinside hnone] at hterminal
      | some collection => simp [Writer.scopedStep, hnone]
  · rw [List.pairwise_append]
    refine ⟨h.last, List.pairwise_singleton _ _, ?_⟩
    simp only [List.mem_singleton, forall_eq]
    intro step hstep hterminal hscope
    obtain ⟨id, hid⟩ := Option.isSome_iff_exists.mp (h.terminal_scoped step hstep hterminal)
    rw [hid] at hscope
    obtain ⟨collection, hcollection, rfl⟩ := Option.map_eq_some_iff.mp hscope
    have hclosed := h.terminal step hstep hterminal collection hcollection hid
    simp [hopen collection hcollection] at hclosed

theorem countStep_frame (w : Writer) (check : String) (terminal : Bool) :
    (w.countStep check terminal).nextCollectionId = w.nextCollectionId ∧
      (w.countStep check terminal).activeCollection.map ActiveCollection.id =
        w.activeCollection.map ActiveCollection.id ∧
      ∀ after ∈ (w.countStep check terminal).activeCollection,
        ∃ collection ∈ w.activeCollection, after.id = collection.id ∧
          (terminal → after.verifyTerminalSeen) := by
  unfold Writer.countStep
  cases hactive : w.activeCollection with
  | none => simp
  | some collection => simp +contextual [Writer.countCollection]

theorem emitStep_frame (w : Writer) :
    w.emitStep.verifyMode = w.verifyMode ∧ w.emitStep.nextCollectionId = w.nextCollectionId ∧
      w.emitStep.activeCollection.map ActiveCollection.id =
        w.activeCollection.map ActiveCollection.id ∧
      ∀ after ∈ w.emitStep.activeCollection, ∃ collection ∈ w.activeCollection,
        after.id = collection.id ∧ after.verifyTerminalSeen = collection.verifyTerminalSeen := by
  unfold Writer.emitStep
  cases w.activeCollection <;> simp

theorem verifyStep (h : History p w happened written) {size : Option ℕ}
    {boundary : TraceVerifyBoundary} {events : List TraceEvent}
    (hcall : w.onVerifyStep p check size boundary = .ok (w', events)) :
    w'.nextCollectionId = w.nextCollectionId ∧
      w'.activeCollection.map ActiveCollection.id = w.activeCollection.map ActiveCollection.id ∧
      History p w' (happened ++ [w.scopedStep check (decide (boundary = .collectionEnd))])
        (written ++ events) := by
  obtain ⟨hinside, hopen, hcase⟩ := onVerifyStep_cases hcall
  obtain ⟨hnext, hid, hactive⟩ := countStep_frame w check (decide (boundary = .collectionEnd))
  have hterminal : w.activeCollection = none → decide (boundary = .collectionEnd) = false := by
    simpa using hinside
  cases hcase with
  | skip hskip =>
    rw [h.sampled] at hskip
    refine ⟨hnext, hid, ?_⟩
    apply h.step hopen hterminal (countStep_verifyMode _ _ _) hnext (h.counts_skip hskip) hactive
    · rw [← h.nextStep_eq, hskip]
      rfl
    · simp
  | keep hkeep =>
    rw [h.sampled] at hkeep ⊢
    obtain ⟨hmode, hsame, hid', hemit⟩ :=
      emitStep_frame (w.countStep check (decide (boundary = .collectionEnd)))
    refine ⟨hsame.trans hnext, hid'.trans hid, ?_⟩
    apply h.step hopen hterminal (hmode.trans (countStep_verifyMode _ _ _)) (hsame.trans hnext)
      (h.counts_keep hkeep)
    · intro after hafter
      obtain ⟨middle, hmiddle, hid, hseen⟩ := hemit after hafter
      obtain ⟨collection, hcollection, hid', hseen'⟩ := hactive middle hmiddle
      refine ⟨collection, hcollection, hid.trans hid', ?_⟩
      rwa [hseen]
    · rw [← h.nextStep_eq, hkeep]
      rfl
    · simp [verifyStepEvent]

theorem pauseSlice (h : History p w happened written) :
    History p w.onPauseSlice.1 happened (written ++ w.onPauseSlice.2) := by
  have hcounts := h.counts
  constructor
  · exact h.sampled
  · exact ⟨hcounts.trueCount, hcounts.emittedCount, hcounts.unscoped, hcounts.collection⟩
  · exact h.scopes_lt
  · exact h.active_lt
  · rw [List.filterMap_append, h.records]
    exact List.append_nil _
  · intro id kind ledger hmem
    simp only [Writer.onPauseSlice, List.mem_append, List.mem_singleton, reduceCtorEq,
      or_false] at hmem
    exact h.ledgers id kind ledger hmem
  · exact h.terminal
  · exact h.terminal_scoped
  · exact h.last

/-- Nothing has happened yet in a scope that no step has. -/
theorem counts_fresh {scope : Option ℕ} (h : ∀ step ∈ happened, step.collectionId ≠ scope) :
    ScopeCounts.CountsOf {} p scope happened ∧ scopeChecks scope happened = [] := by
  induction happened using List.reverseRecOn with
  | nil =>
    refine ⟨?_, rfl⟩
    constructor <;> simp [scopeCount, checkCount, scopeEmitted, sampledRecords, truePositions]
  | append_singleton happened step ih =>
    have hstep : step.collectionId ≠ scope := h step (by simp)
    obtain ⟨hcounts, hchecks⟩ := ih fun other hother => h other (by simp [hother])
    refine ⟨hcounts.other hstep, ?_⟩
    rw [scopeChecks_snoc_other happened hstep, hchecks]

theorem collectionBegin (h : History p w happened written) {kind : TraceCollectionKind}
    {events : List TraceEvent} (hcall : w.onLogicalCollectionBegin kind = .ok (w', events)) :
    w.activeCollection = none ∧
      w'.activeCollection.map ActiveCollection.id = some w.nextCollectionId ∧
      w'.nextCollectionId = w.nextCollectionId + 1 ∧ History p w' happened (written ++ events) := by
  unfold Writer.onLogicalCollectionBegin at hcall
  split at hcall
  · cases hcall
  next hactive =>
  obtain ⟨rfl, rfl⟩ := Prod.mk.inj (Except.ok.inj hcall)
  have hfresh : ∀ step ∈ happened, step.collectionId ≠ some w.nextCollectionId := by
    intro step hstep hscope
    have hlt := h.scopes_lt step hstep w.nextCollectionId hscope
    omega
  have hcounts := h.counts
  refine ⟨hactive, rfl, rfl, ?_⟩
  constructor
  · exact h.sampled
  · refine ⟨hcounts.trueCount, hcounts.emittedCount, hcounts.unscoped, ?_⟩
    intro collection hcollection
    obtain rfl := Option.some.inj hcollection
    obtain ⟨hzero, hnone⟩ := counts_fresh (p := p) hfresh
    exact ⟨hzero, hnone.symm⟩
  · intro step hstep id hid
    exact Nat.lt_succ_of_lt (h.scopes_lt step hstep id hid)
  · intro collection hcollection
    obtain rfl := Option.some.inj hcollection
    exact Nat.lt_succ_self _
  · rw [List.filterMap_append, h.records]
    exact List.append_nil _
  · intro id kind ledger hmem
    simp only [List.mem_append, List.mem_singleton, reduceCtorEq, or_false] at hmem
    obtain ⟨hledger, hlt, -⟩ := h.ledgers id kind ledger hmem
    refine ⟨hledger, Nat.lt_succ_of_lt hlt, ?_⟩
    intro collection hcollection
    obtain rfl := Option.some.inj hcollection
    exact Nat.ne_of_gt hlt
  · intro step hstep _ collection hcollection hscope
    obtain rfl := Option.some.inj hcollection
    exact absurd hscope (hfresh step hstep)
  · exact h.terminal_scoped
  · exact h.last

theorem collectionEnd (h : History p w happened written) {events : List TraceEvent}
    (hcall : w.onLogicalCollectionEnd = .ok (w', events)) :
    w'.activeCollection = none ∧ w'.nextCollectionId = w.nextCollectionId ∧
      History p w' happened (written ++ events) := by
  unfold Writer.onLogicalCollectionEnd at hcall
  split at hcall
  · cases hcall
  next collection hactive =>
  split at hcall
  · cases hcall
  obtain ⟨rfl, rfl⟩ := Prod.mk.inj (Except.ok.inj hcall)
  have hcounts := h.counts
  obtain ⟨hscope, hchecks⟩ := hcounts.collection collection hactive
  refine ⟨rfl, rfl, ?_⟩
  constructor
  · exact h.sampled
  · exact ⟨hcounts.trueCount, hcounts.emittedCount, hcounts.unscoped, by simp⟩
  · exact h.scopes_lt
  · simp
  · rw [List.filterMap_append, h.records]
    exact List.append_nil _
  · intro id kind ledger hmem
    rw [List.mem_append, List.mem_singleton] at hmem
    rcases hmem with hold | hnew
    · obtain ⟨hledger, hlt, -⟩ := h.ledgers id kind ledger hold
      exact ⟨hledger, hlt, by simp⟩
    · simp only [h.sampled, Writer.verifyLedger, TraceEvent.collectionEnd.injEq,
        Option.some.injEq] at hnew
      obtain ⟨rfl, -, rfl⟩ := hnew
      exact ⟨⟨hscope.trueCount, hscope.emittedCount, hchecks⟩, h.active_lt collection hactive,
        by simp⟩
  · simp
  · exact h.terminal_scoped
  · exact h.last

/-- A callback adds the step that it makes, if any. -/
theorem onCall (h : History p w happened written) {call : TraceCall} {events : List TraceEvent}
    (hcall : w.onCall p call = .ok (w', events)) (calls : List TraceCall) :
    ∃ steps, scopedSteps (w.activeCollection.map ActiveCollection.id) w.nextCollectionId
        (call :: calls) = steps ++ scopedSteps
          (w'.activeCollection.map ActiveCollection.id) w'.nextCollectionId calls ∧
      History p w' (happened ++ steps) (written ++ events) := by
  cases call with
  | verifyStep check size boundary =>
    obtain ⟨hnext, hid, hafter⟩ := h.verifyStep hcall
    refine ⟨_, ?_, hafter⟩
    rw [hid, hnext]
    rfl
  | pauseSlice =>
    obtain ⟨rfl, rfl⟩ := Prod.mk.inj (Except.ok.inj hcall)
    refine ⟨[], rfl, ?_⟩
    rw [List.append_nil]
    exact h.pauseSlice
  | collectionBegin kind =>
    obtain ⟨hclosed, hid, hnext, hafter⟩ := h.collectionBegin hcall
    refine ⟨[], ?_, ?_⟩
    · rw [hid, hnext]
      rfl
    · rwa [List.append_nil]
  | collectionEnd =>
    obtain ⟨hclosed, hnext, hafter⟩ := h.collectionEnd hcall
    refine ⟨[], ?_, ?_⟩
    · rw [hclosed, hnext]
      rfl
    · rwa [List.append_nil]

end History

/-- A run adds the steps that it makes. -/
theorem History.record {p : Sampling} {w w' : Writer} {happened : List ScopedStep}
    {written events : List TraceEvent} {calls : List TraceCall} (h : History p w happened written)
    (hrun : w.record p calls = .ok (w', events)) :
    History p w' (happened ++ scopedSteps (w.activeCollection.map ActiveCollection.id)
      w.nextCollectionId calls) (written ++ events) := by
  induction calls generalizing w happened written events with
  | nil =>
    obtain ⟨rfl, rfl⟩ := Prod.mk.inj (Except.ok.inj hrun)
    simpa [scopedSteps] using h
  | cons call calls ih =>
    obtain ⟨w₁, first, later, hcall, hrest, rfl⟩ := record_cons hrun
    obtain ⟨steps, hsteps, hafter⟩ := h.onCall hcall calls
    rw [hsteps, ← List.append_assoc, ← List.append_assoc]
    exact ih hafter hrest

/-- The part of a run before some callback is a run. -/
theorem record_append {p : Sampling} {w w' : Writer} {before after : List TraceCall}
    {events : List TraceEvent} (h : w.record p (before ++ after) = .ok (w', events)) :
    ∃ w₁ written, w.record p before = .ok (w₁, written) := by
  induction before generalizing w events with
  | nil => exact ⟨w, [], rfl⟩
  | cons call before ih =>
    obtain ⟨w₁, first, later, hcall, hrest, -⟩ := record_cons h
    obtain ⟨w₂, written, hbefore⟩ := ih hrest
    refine ⟨w₂, first ++ written, ?_⟩
    simp [Writer.record, hcall, hbefore, bind, Except.bind, pure, Except.pure]

/-- What is not outside the collections is in one. -/
theorem length_eq_scoped {α : Type} (xs : List α) (scope : α → Option ℕ) :
    xs.length = xs.countP (fun x => scope x = none) + xs.countP fun x => (scope x).isSome := by
  rw [List.length_eq_countP_add_countP fun x => decide (scope x = none)]
  congr 2
  ext x
  cases scope x <;> simp

/-! ## The ledger of a run -/

/-- Everything that a trace says about verify steps is what happened. -/
structure Truthful (p : Sampling) (happened : List ScopedStep) (events : List TraceEvent)
    (stats : TraceStats) (r : Replay) : Prop where
  records : events.filterMap TraceEvent.record? = sampledRecords p happened
  last : happened.Pairwise fun step later =>
    step.terminal → later.collectionId ≠ step.collectionId
  ledgers : ∀ id kind ledger, .collectionEnd id kind (some ledger) ∈ events →
    ledger.CountsOf p id happened
  trueCount : stats.trueCount = happened.length
  emittedCount : stats.emittedCount = (sampledRecords p happened).length
  unscopedTrueCount : stats.unscopedTrueCount = scopeCount none happened
  unscopedEmittedCount : stats.unscopedEmittedCount = scopeEmitted p none happened
  collectionTrueCount : r.verifyCollectionLedgerTrueCount =
    happened.countP fun step => step.collectionId.isSome
  collectionEmittedCount : r.verifyCollectionLedgerEmittedCount =
    (sampledRecords p happened).countP fun record => record.2.collectionId.isSome

/-- The writer at the end of a run that has been written. -/
theorem writeTrace_history {p : Sampling} {calls : List TraceCall} {events : List TraceEvent}
    {stats : TraceStats} (h : writeTrace p .sampled calls = .ok (events, stats)) :
    ∃ w, w.writeStats p = .ok stats ∧ History p w (scopedSteps none 0 calls) events := by
  simp only [writeTrace, bind_eq_ok] at h
  obtain ⟨⟨w, written⟩, hrun, final, hstats, hpure⟩ := h
  obtain ⟨rfl, rfl⟩ := Prod.mk.inj (Except.ok.inj hpure)
  have hhistory := (History.start p).record hrun
  simp only [List.nil_append, Option.map_none] at hhistory
  exact ⟨w, hstats, hhistory⟩

/-- The checker accepts every sampled ledger of the writer, and the records, the counters of each
scope and check and all totals are those of the steps that happened. -/
theorem sampled_ledger_accepted {p : Sampling} (hp : 0 < p.stride) {calls : List TraceCall}
    (hknown : ∀ call ∈ calls, call.Known) {events : List TraceEvent} {stats : TraceStats}
    (h : writeTrace p .sampled calls = .ok (events, stats)) :
    (∃ r, checkTraceBundle p events stats = .ok r ∧
      Truthful p (scopedSteps none 0 calls) events stats r) ∧
    ∀ before after, calls = before ++ after → ∃ w written,
      Writer.record p { verifyMode := .sampled } before = .ok (w, written) ∧
        w.CountsOf p (scopedSteps none 0 before) := by
  obtain ⟨w, r, hrun, hstats, hcheck, hagrees⟩ := writeTrace_accepted hp hknown h
  constructor
  · have hhistory := (History.start p).record hrun
    simp only [List.nil_append, Option.map_none] at hhistory
    refine ⟨r, hcheck, ?_⟩
    obtain ⟨hclosed, hfinal⟩ := writeStats_ok hstats
    have hcounts := hhistory.counts
    have hscope := hcounts.unscoped
    have hempty : w.activeCounts = {} := by simp [Writer.activeCounts, hclosed]
    have htrue := hagrees.trueCount
    have hemitted := hagrees.emittedCount
    have hledger := hagrees.collectionEmitted
    have hsteps := length_eq_scoped (scopedSteps none 0 calls) ScopedStep.collectionId
    have hkept := length_eq_scoped (sampledRecords p (scopedSteps none 0 calls))
      fun record => record.2.collectionId
    rw [hempty] at htrue hledger
    simp only [hcounts.trueCount, hscope.trueCount, scopeCount] at htrue
    simp only [hcounts.emittedCount, hscope.emittedCount, scopeEmitted] at hemitted
    simp only at hledger
    constructor
    · exact hhistory.records
    · exact hhistory.last
    · intro id kind ledger hmem
      exact (hhistory.ledgers id kind ledger hmem).1
    · rw [hfinal]
      exact hcounts.trueCount
    · rw [hfinal]
      exact hcounts.emittedCount
    · rw [hfinal]
      exact hscope.trueCount
    · rw [hfinal]
      exact hscope.emittedCount
    · omega
    · omega
  · rintro before after rfl
    obtain ⟨w₁, written, hbefore⟩ := record_append hrun
    have hhistory := (History.start p).record hbefore
    exact ⟨w₁, written, hbefore, hhistory.counts⟩

/-- A run with a step before a collection and two in it. -/
def scopedCalls : List TraceCall := [
  .verifyStep "remembered_set" none .none,
  .collectionBegin .minor,
  .pauseSlice,
  .verifyStep "weak_targets" (some 3) .none,
  .verifyStep "validate_after_collection" none .collectionEnd,
  .collectionEnd]

theorem sampled_ledger_accepted_scopedCalls : ∃ events stats,
    writeTrace traceSampling .sampled scopedCalls = .ok (events, stats) ∧
      (∃ r, checkTraceBundle traceSampling events stats = .ok r ∧
        Truthful traceSampling (scopedSteps none 0 scopedCalls) events stats r) ∧
      ∀ before after, scopedCalls = before ++ after → ∃ w written,
        Writer.record traceSampling { verifyMode := .sampled } before = .ok (w, written) ∧
          w.CountsOf traceSampling (scopedSteps none 0 before) :=
  ⟨_, _, rfl, sampled_ledger_accepted (by decide) (by decide) rfl⟩

end LanguageRuntime.Trace
