import LanguageRuntime.Trace.CountTheorems

/-!
# What an accepted ledger says of the steps that happened

The checker compares the occurrences of a check with the positions that have no event, one check
at a time. So for each check there is a run in which its recorded positions and counters are
true, but two checks may claim the same positions.
-/

namespace LanguageRuntime.Trace

/-! ## Two checks that claim the same positions -/

theorem mem_truePositions {before happened : List ScopedStep} {record : String × SampledStep}
    (h : record ∈ truePositions before happened) :
    ∃ earlier step later, happened = earlier ++ step :: later ∧
      record = (step.check, truePosition (before ++ earlier) step) := by
  induction happened generalizing before with
  | nil => simp [truePositions] at h
  | cons first rest ih =>
    simp only [truePositions, List.mem_cons] at h
    rcases h with rfl | h
    · exact ⟨[], first, rest, rfl, by simp⟩
    · obtain ⟨earlier, step, later, rfl, hrecord⟩ := ih h
      exact ⟨first :: earlier, step, later, rfl, by simpa using hrecord⟩

/-- A record of a run counts the steps before it. -/
theorem mem_sampledRecords {p : Sampling} {happened : List ScopedStep}
    {record : String × SampledStep} (h : record ∈ sampledRecords p happened) :
    (happened.take record.2.verifyIndex).length = record.2.verifyIndex ∧
      checkCount record.2.collectionId record.1 (happened.take record.2.verifyIndex) =
        record.2.checkIndex := by
  obtain ⟨earlier, step, later, rfl, hrecord⟩ := mem_truePositions (List.mem_of_mem_filter h)
  have hindex : record.2.verifyIndex = earlier.length := by simp [hrecord, truePosition]
  have htake : (earlier ++ step :: later).take earlier.length = earlier := List.take_left
  rw [hindex, htake, hrecord]
  exact ⟨rfl, rfl⟩

/-- Two checks share the steps that happened. -/
theorem checkCount_add_le {first second : String} (hne : first ≠ second) (scope : Option ℕ)
    (happened : List ScopedStep) :
    checkCount scope first happened + checkCount scope second happened ≤ happened.length := by
  induction happened with
  | nil => simp [checkCount]
  | cons step happened ih =>
    have hsplit : step :: happened = [step] ++ happened := rfl
    rw [hsplit, checkCount_append, checkCount_append, checkCount_singleton, checkCount_singleton,
      List.length_append, List.length_singleton]
    split
    · next hfirst =>
      rw [if_neg fun hsecond => hne (hfirst.2.symm.trans hsecond.2)]
      omega
    · split <;> omega

theorem checkCount_le_length (scope : Option ℕ) (check : String) (happened : List ScopedStep) :
    checkCount scope check happened ≤ happened.length :=
  List.countP_le_length

/-- Two records of a run cannot claim more steps than there are before the second. -/
theorem records_share_steps {p : Sampling} {happened : List ScopedStep} {first second : String}
    {step later : SampledStep} (hne : first ≠ second)
    (hstep : (first, step) ∈ sampledRecords p happened)
    (hlater : (second, later) ∈ sampledRecords p happened)
    (hscope : step.collectionId = later.collectionId)
    (hle : step.verifyIndex ≤ later.verifyIndex) :
    step.checkIndex + later.checkIndex ≤ later.verifyIndex := by
  obtain ⟨-, hfirst⟩ := mem_sampledRecords hstep
  obtain ⟨hlength, hsecond⟩ := mem_sampledRecords hlater
  have htake : happened.take step.verifyIndex =
      (happened.take later.verifyIndex).take step.verifyIndex := by
    rw [List.take_take, Nat.min_eq_left hle]
  have hmono : checkCount later.collectionId first (happened.take step.verifyIndex) ≤
      checkCount later.collectionId first (happened.take later.verifyIndex) := by
    rw [htake]
    exact (List.take_sublist _ _).countP_le
  have hshare := checkCount_add_le hne later.collectionId (happened.take later.verifyIndex)
  simp only at hfirst hsecond hlength
  rw [hscope] at hfirst
  omega

/-- A ledger of steps outside collections. The eight positions after the head are all claimed by
the next event, and once more by the one after it. -/
def disputedEvents : List TraceEvent :=
  (List.range 39).map (fun index =>
    .verifyStep none "remembered_set" (some ⟨index, none, index, index, false⟩)) ++ [
  .verifyStep none "weak_targets" (some ⟨39, none, 39, 0, false⟩),
  .verifyStep none "remembered_set" (some ⟨48, none, 48, 47, false⟩),
  .verifyStep none "weak_targets" (some ⟨64, none, 64, 24, false⟩)]

def disputedStats : TraceStats where
  pauseSlices := 0
  collectionCount := 0
  verifyStepTotal := 42
  mode := .sampled
  headWindow := 40
  stride := 16
  retentionRule := VerifyEventMode.sampled.retentionRule
  trueCount := 65
  emittedCount := 42
  unscopedTrueCount := 65
  unscopedEmittedCount := 42

/-- Whether a scope of `count` positions with the events seen so far can have `n` occurrences of a
check. The positions without an event since the last event of the check are free. -/
def Fits (check : String) (scope : VerifyScope) (count n : ℕ) : Prop :=
  match scope.lastCheckIndices check with
  | some index => ∃ position ordinal, scope.lastCheckScopeIndices check = some position ∧
      scope.lastCheckEmittedOrdinals check = some ordinal ∧ index < n ∧
      n + scope.emittedCount + position ≤ count + index + ordinal + 1
  | none => n + scope.emittedCount ≤ count

/-- Positions without an event can be occurrences or not. -/
theorem Fits.gap {check : String} {scope : VerifyScope} {count gap n n₀ : ℕ}
    (h : Fits check scope (count + gap) n) (hroom : Fits check scope count n₀) :
    ∃ m, Fits check scope count m ∧ m ≤ n ∧ n ≤ m + gap := by
  unfold Fits at h hroom ⊢
  split at h
  · next index hindex =>
    simp only [hindex] at hroom ⊢
    obtain ⟨position, ordinal, hposition, hordinal, hlt, hle⟩ := h
    obtain ⟨position', ordinal', hposition', hordinal', hlt', hle'⟩ := hroom
    obtain rfl := Option.some.inj (hposition.symm.trans hposition')
    obtain rfl := Option.some.inj (hordinal.symm.trans hordinal')
    -- the least number that the gap can make up for
    refine ⟨max (index + 1) (n - gap), ⟨position, ordinal, hposition, hordinal, ?_, ?_⟩, ?_, ?_⟩ <;>
      omega
  · next hnone =>
    simp only [hnone] at hroom ⊢
    exact ⟨n - gap, by omega, by omega, by omega⟩

/-- More positions leave more room. -/
theorem Fits.mono {check : String} {scope : VerifyScope} {count gap n : ℕ}
    (h : Fits check scope count n) : Fits check scope (count + gap) n := by
  unfold Fits at h ⊢
  split at h
  · obtain ⟨position, ordinal, hposition, hordinal, hlt, hle⟩ := h
    exact ⟨position, ordinal, hposition, hordinal, hlt, by omega⟩
  · omega

/-- The event of another check takes a position. -/
theorem fits_addStep_other {check other : String} {scope : VerifyScope} {step : SampledStep}
    {count n : ℕ} (hne : check ≠ other) :
    Fits check (scope.addStep other step) (count + 1) n ↔ Fits check scope count n := by
  simp only [Fits, VerifyScope.addStep, hne, if_false]
  split
  · constructor
    · rintro ⟨position, ordinal, hposition, hordinal, hlt, hle⟩
      exact ⟨position, ordinal, hposition, hordinal, hlt, by omega⟩
    · rintro ⟨position, ordinal, hposition, hordinal, hlt, hle⟩
      exact ⟨position, ordinal, hposition, hordinal, hlt, by omega⟩
  · omega

/-- The event of the check fixes the number of its occurrences. -/
theorem fits_addStep_same {check : String} {scope : VerifyScope} {step : SampledStep} {n : ℕ} :
    Fits check (scope.addStep check step) (step.scopeIndex + 1) n ↔ n = step.checkIndex + 1 := by
  simp only [Fits, VerifyScope.addStep, if_true]
  constructor
  · rintro ⟨position, ordinal, hposition, hordinal, hlt, hle⟩
    obtain rfl := Option.some.inj hposition
    obtain rfl := Option.some.inj hordinal
    omega
  · rintro rfl
    exact ⟨step.scopeIndex, scope.emittedCount, rfl, rfl, by omega, by omega⟩

/-- The checker's bound on an event of the check. -/
theorem fits_of_requireOccurrence {check : String} {scope : VerifyScope} {step : SampledStep}
    {n₀ : ℕ} (h : scope.requireOccurrence check step = .ok ())
    (hroom : Fits check scope step.scopeIndex n₀) :
    Fits check scope step.scopeIndex step.checkIndex := by
  unfold VerifyScope.requireOccurrence at h
  unfold Fits at hroom ⊢
  split at h
  · next index hindex =>
    simp only [hindex] at hroom ⊢
    obtain ⟨position, ordinal, hposition, hordinal, -, -⟩ := hroom
    simp only [hposition, hordinal, check_bind_eq_ok, require_eq_ok] at h
    exact ⟨position, ordinal, hposition, hordinal, h.1, by omega⟩
  · next hnone =>
    simp only [hnone] at hroom ⊢
    rw [require_eq_ok] at h
    split at h <;> omega

/-- What fits after an event fitted before it. -/
theorem Fits.before_addStep {check other : String} {scope : VerifyScope} {step : SampledStep}
    {n n₀ : ℕ} (hoccurrence : scope.requireOccurrence other step = .ok ())
    (hroom : Fits check scope step.scopeIndex n₀)
    (h : Fits check (scope.addStep other step) (step.scopeIndex + 1) n) :
    ∃ m, Fits check scope step.scopeIndex m ∧ n = m + (if other = check then 1 else 0) ∧
      (other = check → step.checkIndex = m) := by
  by_cases hsame : other = check
  · subst hsame
    refine ⟨step.checkIndex, fits_of_requireOccurrence hoccurrence hroom, ?_⟩
    simpa using fits_addStep_same.mp h
  · refine ⟨n, (fits_addStep_other fun heq => hsame heq.symm).mp h, ?_⟩
    simp [hsame]

/-- Something fits after an event if something did before. -/
theorem Fits.room_addStep {check : String} {scope : VerifyScope} {step : SampledStep} {n₀ : ℕ}
    (other : String) (hroom : Fits check scope step.scopeIndex n₀) :
    ∃ n, Fits check (scope.addStep other step) (step.scopeIndex + 1) n := by
  by_cases hsame : check = other
  · subst hsame
    exact ⟨step.checkIndex + 1, fits_addStep_same.mpr rfl⟩
  · exact ⟨n₀, (fits_addStep_other hsame).mpr hroom⟩

/-! ## Runs made from events -/

/-- The callback that an event other than a verify step stands for. -/
def TraceEvent.call? : TraceEvent → Option TraceCall
  | .verifyStep _ _ _ => none
  | .pause _ => some .pauseSlice
  | .collectionBegin _ kind => some (.collectionBegin kind)
  | .collectionEnd _ _ _ => some .collectionEnd

def TraceCall.isVerifyStep : TraceCall → Bool
  | .verifyStep _ _ _ => true
  | _ => false

/-- The collection that is open after some callbacks and the number of the next one. -/
def scopeAfter : Option ℕ → ℕ → List TraceCall → Option ℕ × ℕ
  | active, next, [] => (active, next)
  | active, next, .verifyStep _ _ _ :: calls => scopeAfter active next calls
  | active, next, .pauseSlice :: calls => scopeAfter active next calls
  | _, next, .collectionBegin _ :: calls => scopeAfter (some next) (next + 1) calls
  | _, next, .collectionEnd :: calls => scopeAfter none next calls

theorem scopedSteps_append (active : Option ℕ) (next : ℕ) (calls later : List TraceCall) :
    scopedSteps active next (calls ++ later) = scopedSteps active next calls ++
      scopedSteps (scopeAfter active next calls).1 (scopeAfter active next calls).2 later := by
  induction calls generalizing active next with
  | nil => rfl
  | cons call calls ih => cases call <;> simp [scopedSteps, scopeAfter, ih]

theorem scopeAfter_append (active : Option ℕ) (next : ℕ) (calls later : List TraceCall) :
    scopeAfter active next (calls ++ later) =
      scopeAfter (scopeAfter active next calls).1 (scopeAfter active next calls).2 later := by
  induction calls generalizing active next with
  | nil => rfl
  | cons call calls ih => cases call <;> simp [scopeAfter, ih]

/-- A check other than the given one. -/
def otherCheck (check : String) : String :=
  if check = "ephemerons" then "weak_targets" else "ephemerons"

theorem otherCheck_ne (check : String) : otherCheck check ≠ check := by
  unfold otherCheck
  split
  · next heq =>
    subst heq
    decide
  · next hne => exact fun heq => hne heq.symm

/-- Steps without an event: some of a check, then some of another. -/
def gapCalls (check : String) (same other : ℕ) : List TraceCall :=
  List.replicate same (.verifyStep check none .none) ++
    List.replicate other (.verifyStep (otherCheck check) none .none)

/-- The steps of a gap. -/
def gapSteps (scope : Option ℕ) (check : String) (same other : ℕ) : List ScopedStep :=
  List.replicate same ⟨scope, check, false⟩ ++ List.replicate other ⟨scope, otherCheck check, false⟩

theorem scopedSteps_replicate (active : Option ℕ) (next : ℕ) (check : String) (count : ℕ) :
    scopedSteps active next (List.replicate count (.verifyStep check none .none)) =
      List.replicate count ⟨active, check, false⟩ ∧
    scopeAfter active next (List.replicate count (.verifyStep check none .none)) =
      (active, next) := by
  induction count with
  | zero => exact ⟨rfl, rfl⟩
  | succ count ih =>
    simp only [List.replicate_succ, scopedSteps, scopeAfter, ih, and_true]
    rfl

theorem scopedSteps_gapCalls (active : Option ℕ) (next : ℕ) (check : String) (same other : ℕ) :
    scopedSteps active next (gapCalls check same other) = gapSteps active check same other ∧
      scopeAfter active next (gapCalls check same other) = (active, next) := by
  obtain ⟨hsame, hafter⟩ := scopedSteps_replicate active next check same
  obtain ⟨hother, hend⟩ := scopedSteps_replicate active next (otherCheck check) other
  rw [gapCalls, scopedSteps_append, scopeAfter_append, hafter, hsame, hother, hend]
  exact ⟨rfl, rfl⟩

theorem gapCalls_filter (check : String) (same other : ℕ) :
    (gapCalls check same other).filter (fun call => !call.isVerifyStep) = [] := by
  simp [gapCalls, TraceCall.isVerifyStep]

@[simp] theorem gapSteps_length (scope : Option ℕ) (check : String) (same other : ℕ) :
    (gapSteps scope check same other).length = same + other := by
  simp [gapSteps]

theorem mem_gapSteps {scope : Option ℕ} {check : String} {same other : ℕ} {step : ScopedStep}
    (h : step ∈ gapSteps scope check same other) : step.collectionId = scope := by
  simp only [gapSteps, List.mem_append, List.mem_replicate] at h
  rcases h with ⟨-, rfl⟩ | ⟨-, rfl⟩ <;> rfl

theorem scopeCount_gapSteps (scope other : Option ℕ) (check : String) (m g : ℕ) :
    scopeCount other (gapSteps scope check m g) = if scope = other then m + g else 0 := by
  simp only [scopeCount, gapSteps, List.countP_append, List.countP_replicate, decide_eq_true_eq]
  split <;> rfl

theorem checkCount_gapSteps (scope other : Option ℕ) (check : String) (m g : ℕ) :
    checkCount other check (gapSteps scope check m g) = if scope = other then m else 0 := by
  simp only [checkCount, gapSteps, List.countP_append, List.countP_replicate, decide_eq_true_eq]
  by_cases hscope : scope = other <;> simp [hscope, otherCheck_ne]

/-- A record stands at its place in a run; its occurrence counter is true if it is one of the
check that the run is made for. -/
def Placed (check : String) (happened : List ScopedStep) (record : String × SampledStep) : Prop :=
  ∃ before step later, happened = before ++ step :: later ∧ record.1 = step.check ∧
    record.2 = { truePosition before step with checkIndex := record.2.checkIndex } ∧
    (record.1 = check → record.2 = truePosition before step)

theorem Placed.append {check : String} {happened : List ScopedStep}
    {record : String × SampledStep} (h : Placed check happened record) (more : List ScopedStep) :
    Placed check (happened ++ more) record := by
  obtain ⟨before, step, later, rfl, hrest⟩ := h
  exact ⟨before, step, later ++ more, by simp, hrest⟩

/-- The number of the open collection in a replay. -/
def Replay.openScope (r : Replay) : Option ℕ := r.activeCollection.map Prod.fst

/-- A run for a check that has the events seen so far: `u` steps outside collections, `nu` of them
of the check, and `a` steps in the open collection, `na` of them of the check. -/
structure Follows (check : String) (r : Replay) (seen : List TraceEvent) (u a nu na : ℕ)
    (calls : List TraceCall) : Prop where
  frame : calls.filter (fun call => !call.isVerifyStep) = seen.filterMap TraceEvent.call?
  scope : scopeAfter none 0 calls = (r.openScope, r.nextCollectionId)
  placed : ∀ record ∈ seen.filterMap TraceEvent.record?, Placed check (scopedSteps none 0 calls) record
  length : (scopedSteps none 0 calls).length = u + r.verifyCollectionLedgerTrueCount + a
  unscoped : scopeCount none (scopedSteps none 0 calls) = u
  unscopedCheck : checkCount none check (scopedSteps none 0 calls) = nu
  active : ∀ id ∈ r.openScope, scopeCount (some id) (scopedSteps none 0 calls) = a ∧
    checkCount (some id) check (scopedSteps none 0 calls) = na
  fresh : ∀ step ∈ scopedSteps none 0 calls, ∀ id ∈ step.collectionId, id < r.nextCollectionId
  active_lt : ∀ id ∈ r.openScope, id < r.nextCollectionId
  ended : ∀ id kind ledger, .collectionEnd id kind (some ledger) ∈ seen →
    ledger.trueCount = scopeCount (some id) (scopedSteps none 0 calls) ∧
      id < r.nextCollectionId ∧ r.openScope ≠ some id

namespace Follows

variable {check other : String} {r r' : Replay} {seen : List TraceEvent} {u a nu na m g : ℕ}
  {calls : List TraceCall} {step : SampledStep} {size : Option ℕ}

/-- The steps of a run after a gap and a recorded step. -/
theorem steps_gap (h : Follows check r seen u a nu na calls) (m g : ℕ) (other : String)
    (size : Option ℕ) (terminal : Bool) :
    let more := gapCalls check m g ++
      [.verifyStep other size (if terminal then .collectionEnd else .none)]
    scopedSteps none 0 (calls ++ more) = scopedSteps none 0 calls ++
        (gapSteps r.openScope check m g ++ [⟨r.openScope, other, terminal⟩]) ∧
      scopeAfter none 0 (calls ++ more) = (r.openScope, r.nextCollectionId) := by
  obtain ⟨hgap, hafter⟩ := scopedSteps_gapCalls r.openScope r.nextCollectionId check m g
  simp only [scopedSteps_append, scopeAfter_append, h.scope, hgap, hafter]
  cases terminal <;> exact ⟨rfl, rfl⟩

/-- A gap and a recorded step, apart from the counts of the scope that they are in. -/
theorem recorded (h : Follows check r seen u a nu na calls) (size : Option ℕ)
    (hactive : r'.openScope = r.openScope) (hnext : r'.nextCollectionId = r.nextCollectionId)
    (hid : step.collectionId = r.openScope)
    (hindex : step.verifyIndex = u + r.verifyCollectionLedgerTrueCount + a + (m + g))
    (hpos : step.scopeIndex = scopeCount r.openScope (scopedSteps none 0 calls) + (m + g))
    (hcheck : other = check →
      step.checkIndex = checkCount r.openScope check (scopedSteps none 0 calls) + m) :
    let calls' := calls ++ (gapCalls check m g ++
      [.verifyStep other size (if step.terminal then .collectionEnd else .none)])
    let seen' := seen ++ [.verifyStep size other (some step)]
    calls'.filter (fun call => !call.isVerifyStep) = seen'.filterMap TraceEvent.call? ∧
    scopeAfter none 0 calls' = (r'.openScope, r'.nextCollectionId) ∧
    (∀ record ∈ seen'.filterMap TraceEvent.record?, Placed check (scopedSteps none 0 calls') record) ∧
    (∀ step ∈ scopedSteps none 0 calls', ∀ id ∈ step.collectionId, id < r'.nextCollectionId) ∧
    (∀ id ∈ r'.openScope, id < r'.nextCollectionId) ∧
    ∀ id kind ledger, .collectionEnd id kind (some ledger) ∈ seen' →
      ledger.trueCount = scopeCount (some id) (scopedSteps none 0 calls') ∧
        id < r'.nextCollectionId ∧ r'.openScope ≠ some id := by
  intro calls' seen'
  obtain ⟨hsteps, hafter⟩ : scopedSteps none 0 calls' = _ ∧ scopeAfter none 0 calls' = _ :=
    h.steps_gap m g other size step.terminal
  have hlength : (scopedSteps none 0 calls ++ gapSteps r.openScope check m g).length =
      step.verifyIndex := by
    rw [List.length_append, h.length, gapSteps_length, hindex]
  have hscope : scopeCount r.openScope (scopedSteps none 0 calls ++
      gapSteps r.openScope check m g) = step.scopeIndex := by
    rw [scopeCount_append, scopeCount_gapSteps, if_pos rfl, hpos]
  have hplace : truePosition (scopedSteps none 0 calls ++ gapSteps r.openScope check m g)
      ⟨r.openScope, other, step.terminal⟩ = { step with
        checkIndex := checkCount r.openScope other
          (scopedSteps none 0 calls ++ gapSteps r.openScope check m g) } := by
    unfold truePosition
    simp only
    rw [hlength, hscope, hid]
  rw [hnext, hactive]
  refine ⟨?_, hafter, ?_, ?_, h.active_lt, ?_⟩
  · simp only [calls', seen', List.filter_append, gapCalls_filter, h.frame, List.filterMap_append]
    rfl
  · intro record hrecord
    rw [hsteps]
    simp only [seen', List.filterMap_append, List.mem_append] at hrecord
    rcases hrecord with hold | hnew
    · exact (h.placed record hold).append _
    · have heq : record = (other, step) := by
        simpa [TraceEvent.record?] using hnew
      subst heq
      refine ⟨scopedSteps none 0 calls ++ gapSteps r.openScope check m g,
        ⟨r.openScope, other, step.terminal⟩, [], by simp, rfl, ?_, ?_⟩
      · rw [hplace]
      · intro hsame
        replace hsame : other = check := hsame
        rw [hplace, hsame, checkCount_append, checkCount_gapSteps, if_pos rfl, ← hcheck hsame]
  · rw [hsteps]
    intro entry hentry id hentryid
    simp only [List.mem_append, List.mem_singleton] at hentry
    rcases hentry with hold | hgap | rfl
    · exact h.fresh entry hold id hentryid
    · rw [mem_gapSteps hgap] at hentryid
      exact h.active_lt id hentryid
    · exact h.active_lt id hentryid
  · intro id kind ledger hmem
    simp only [seen', List.mem_append, List.mem_singleton, reduceCtorEq, or_false] at hmem
    obtain ⟨htrue, hlt, hne⟩ := h.ended id kind ledger hmem
    refine ⟨?_, hlt, hne⟩
    rw [hsteps, scopeCount_append, scopeCount_append, scopeCount_gapSteps, scopeCount_singleton,
      if_neg hne, if_neg hne, htrue]
    rfl

/-- A recorded step outside collections. -/
theorem unscopedStep (h : Follows check r seen u a nu na calls) (size : Option ℕ) (hclosed : r.openScope = none)
    (hactive : r'.openScope = r.openScope) (hnext : r'.nextCollectionId = r.nextCollectionId)
    (hledger : r'.verifyCollectionLedgerTrueCount = r.verifyCollectionLedgerTrueCount)
    (hid : step.collectionId = none)
    (hindex : step.verifyIndex = u + r.verifyCollectionLedgerTrueCount + a)
    (hpos : step.scopeIndex = u) (hcheck : other = check → step.checkIndex = nu) :
    ∃ calls', Follows check r' (seen ++ [.verifyStep size other (some step)]) (u + 1) a
      (nu + if other = check then 1 else 0) na calls' := by
  obtain ⟨hframe, hscope, hplaced, hfresh, hlt, hended⟩ :=
    h.recorded (m := 0) (g := 0) size hactive hnext (hid.trans hclosed.symm) hindex
      (by rw [hclosed, h.unscoped, hpos]; rfl)
      (by rw [hclosed, h.unscopedCheck]; exact hcheck)
  obtain ⟨hsteps, -⟩ := h.steps_gap 0 0 other size step.terminal
  refine ⟨_, hframe, hscope, hplaced, ?_, ?_, ?_, ?_, hfresh, hlt, hended⟩
  · rw [hsteps, hledger]
    simp only [List.length_append, h.length, gapSteps_length, List.length_singleton]
    omega
  · simp only [hsteps, scopeCount_append, h.unscoped, scopeCount_gapSteps, hclosed,
      scopeCount_singleton, if_true]
  · simp only [hsteps, checkCount_append, h.unscopedCheck, checkCount_gapSteps, hclosed,
      checkCount_singleton, if_true, true_and, Nat.zero_add]
  · intro id hid
    simp [hactive, hclosed] at hid

/-- A gap and a recorded step in the open collection. -/
theorem collectionStep (h : Follows check r seen u a nu na calls) (size : Option ℕ) {id : ℕ}
    (hopen : r.openScope = some id)
    (hactive : r'.openScope = r.openScope) (hnext : r'.nextCollectionId = r.nextCollectionId)
    (hledger : r'.verifyCollectionLedgerTrueCount = r.verifyCollectionLedgerTrueCount)
    (hid : step.collectionId = some id)
    (hindex : step.verifyIndex = u + r.verifyCollectionLedgerTrueCount + a + (m + g))
    (hpos : step.scopeIndex = a + (m + g)) (hcheck : other = check → step.checkIndex = na + m) :
    ∃ calls', Follows check r' (seen ++ [.verifyStep size other (some step)]) u
      (step.scopeIndex + 1) nu (na + m + if other = check then 1 else 0) calls' := by
  obtain ⟨hcount, hoccurred⟩ := h.active id (by simp [hopen])
  obtain ⟨hframe, hscope, hplaced, hfresh, hlt, hended⟩ :=
    h.recorded size hactive hnext (hid.trans hopen.symm) hindex
      (by rw [hopen, hcount, hpos]) (by rw [hopen, hoccurred]; exact hcheck)
  obtain ⟨hsteps, -⟩ := h.steps_gap m g other size step.terminal
  refine ⟨_, hframe, hscope, hplaced, ?_, ?_, ?_, ?_, hfresh, hlt, hended⟩
  · rw [hsteps, hledger]
    simp only [List.length_append, h.length, gapSteps_length, List.length_singleton]
    omega
  · simp only [hsteps, scopeCount_append, h.unscoped, scopeCount_gapSteps, hopen,
      scopeCount_singleton, reduceCtorEq, if_false, Nat.add_zero]
  · simp only [hsteps, checkCount_append, h.unscopedCheck, checkCount_gapSteps, hopen,
      checkCount_singleton, reduceCtorEq, if_false, false_and, Nat.add_zero]
  · intro id' hid'
    have hsame : id = id' := by simpa [hactive, hopen] using hid'
    subst hsame
    constructor
    · simp only [hsteps, scopeCount_append, hcount, scopeCount_gapSteps, hopen,
        scopeCount_singleton, if_true]
      omega
    · simp only [hsteps, checkCount_append, hoccurred, checkCount_gapSteps, hopen,
        checkCount_singleton, if_true, true_and]
      omega

/-- Steps outside collections that have no event. -/
theorem pad (h : Follows check r seen u a nu na calls) (hclosed : r.openScope = none) (m g : ℕ) :
    Follows check r seen (u + (m + g)) a (nu + m) na (calls ++ gapCalls check m g) := by
  obtain ⟨hgap, hafter⟩ := scopedSteps_gapCalls r.openScope r.nextCollectionId check m g
  have hsteps : scopedSteps none 0 (calls ++ gapCalls check m g) =
      scopedSteps none 0 calls ++ gapSteps r.openScope check m g := by
    rw [scopedSteps_append, h.scope, hgap]
  constructor
  · rw [List.filter_append, gapCalls_filter, List.append_nil, h.frame]
  · rw [scopeAfter_append, h.scope, hafter]
  · intro record hrecord
    rw [hsteps]
    exact (h.placed record hrecord).append _
  · rw [hsteps, List.length_append, h.length, gapSteps_length]
    omega
  · rw [hsteps, scopeCount_append, h.unscoped, scopeCount_gapSteps, hclosed, if_pos rfl]
  · rw [hsteps, checkCount_append, h.unscopedCheck, checkCount_gapSteps, hclosed, if_pos rfl]
  · simp [hclosed]
  · rw [hsteps]
    intro entry hentry id hid
    rw [List.mem_append] at hentry
    rcases hentry with hold | hnew
    · exact h.fresh entry hold id hid
    · simp [mem_gapSteps hnew, hclosed] at hid
  · exact h.active_lt
  · intro id kind ledger hmem
    obtain ⟨htrue, hlt, hne⟩ := h.ended id kind ledger hmem
    refine ⟨?_, hlt, hne⟩
    rw [hsteps, scopeCount_append, scopeCount_gapSteps, if_neg hne, htrue, Nat.add_zero]

theorem pause (h : Follows check r seen u a nu na calls) (collectionId : Option ℕ) (pauses : ℕ) :
    Follows check { r with pauseSlices := pauses } (seen ++ [.pause collectionId]) u a nu na
      (calls ++ [.pauseSlice]) := by
  have hsteps : scopedSteps none 0 (calls ++ [.pauseSlice]) = scopedSteps none 0 calls := by
    simp [scopedSteps_append, scopedSteps]
  constructor <;> try rw [hsteps]
  · simp only [List.filter_append, h.frame, List.filterMap_append]
    rfl
  · rw [scopeAfter_append, h.scope]
    rfl
  · intro record hrecord
    rw [List.filterMap_append] at hrecord
    exact h.placed record (by simpa [TraceEvent.record?] using hrecord)
  · exact h.length
  · exact h.unscoped
  · exact h.unscopedCheck
  · exact h.active
  · exact h.fresh
  · exact h.active_lt
  · intro id kind ledger hmem
    simp only [List.mem_append, List.mem_singleton, reduceCtorEq, or_false] at hmem
    exact h.ended id kind ledger hmem

theorem collectionBegin (h : Follows check r seen u 0 nu na calls)
    {kind : TraceCollectionKind} (hopen : r'.openScope = some r.nextCollectionId)
    (hnext : r'.nextCollectionId = r.nextCollectionId + 1)
    (hledger : r'.verifyCollectionLedgerTrueCount = r.verifyCollectionLedgerTrueCount) :
    Follows check r' (seen ++ [.collectionBegin r.nextCollectionId kind]) u 0 nu 0
      (calls ++ [.collectionBegin kind]) := by
  have hsteps : scopedSteps none 0 (calls ++ [.collectionBegin kind]) =
      scopedSteps none 0 calls := by
    simp [scopedSteps_append, scopedSteps]
  have hfresh : ∀ step ∈ scopedSteps none 0 calls,
      step.collectionId ≠ some r.nextCollectionId := by
    intro step hstep hid
    have hlt := h.fresh step hstep r.nextCollectionId hid
    omega
  constructor <;> try rw [hsteps]
  · simp only [List.filter_append, h.frame, List.filterMap_append]
    rfl
  · rw [scopeAfter_append, h.scope, hopen, hnext]
    rfl
  · intro record hrecord
    rw [List.filterMap_append] at hrecord
    exact h.placed record (by simpa [TraceEvent.record?] using hrecord)
  · rw [hledger]
    exact h.length
  · exact h.unscoped
  · exact h.unscopedCheck
  · intro id hid
    obtain rfl : r.nextCollectionId = id := by simpa [hopen] using hid
    simp only [scopeCount, checkCount, List.countP_eq_zero, decide_eq_true_eq, not_and]
    exact ⟨hfresh, fun step hstep hscope => absurd hscope (hfresh step hstep)⟩
  · intro step hstep id hid
    rw [hnext]
    exact Nat.lt_succ_of_lt (h.fresh step hstep id hid)
  · intro id hid
    obtain rfl : r.nextCollectionId = id := by simpa [hopen] using hid
    rw [hnext]
    exact Nat.lt_succ_self _
  · intro id kind' ledger hmem
    simp only [List.mem_append, List.mem_singleton, reduceCtorEq, or_false] at hmem
    obtain ⟨htrue, hlt, -⟩ := h.ended id kind' ledger hmem
    rw [hnext, hopen]
    refine ⟨htrue, Nat.lt_succ_of_lt hlt, ?_⟩
    intro hsame
    have heq := Option.some.inj hsame
    omega

theorem collectionEnd (h : Follows check r seen u a nu na calls) (kind : TraceCollectionKind)
    (r' : Replay) {id : ℕ} (hopen : r.openScope = some id) {ledger : VerifyLedger} (htrue : ledger.trueCount = a) (hclosed : r'.openScope = none)
    (hnext : r'.nextCollectionId = r.nextCollectionId)
    (hledger : r'.verifyCollectionLedgerTrueCount = r.verifyCollectionLedgerTrueCount + a) :
    Follows check r' (seen ++ [.collectionEnd id kind (some ledger)]) u 0 nu 0
      (calls ++ [.collectionEnd]) := by
  have hsteps : scopedSteps none 0 (calls ++ [.collectionEnd]) = scopedSteps none 0 calls := by
    simp [scopedSteps_append, scopedSteps]
  constructor <;> try rw [hsteps]
  · simp only [List.filter_append, h.frame, List.filterMap_append]
    rfl
  · rw [scopeAfter_append, h.scope, hclosed, hnext]
    rfl
  · intro record hrecord
    rw [List.filterMap_append] at hrecord
    exact h.placed record (by simpa [TraceEvent.record?] using hrecord)
  · rw [h.length, hledger]
    omega
  · exact h.unscoped
  · exact h.unscopedCheck
  · simp [hclosed]
  · rw [hnext]
    exact h.fresh
  · simp [hclosed]
  · intro id' kind' ledger' hmem
    rw [hnext, hclosed]
    rw [List.mem_append, List.mem_singleton] at hmem
    rcases hmem with hold | hnew
    · obtain ⟨htrue', hlt, -⟩ := h.ended id' kind' ledger' hold
      exact ⟨htrue', hlt, by simp⟩
    · simp only [TraceEvent.collectionEnd.injEq, Option.some.injEq] at hnew
      obtain ⟨rfl, -, rfl⟩ := hnew
      exact ⟨htrue.trans (h.active id' (by simp [hopen])).1.symm,
        h.active_lt id' (by simp [hopen]), by simp⟩

end Follows

/-! ## The replay -/

/-- The first position of the open collection in the run is known. -/
def Replay.Pinned (r : Replay) : Prop :=
  ∃ scope ∈ r.collectionVerifyScope, scope.verifyIndexBase.isSome

/-- At least `u` steps outside collections and exactly `a` steps in the open collection happened up
to the last event. -/
structure Layout (r : Replay) (u a : ℕ) : Prop where
  total : (r.verifyLastIndex.map (· + 1)).getD 0 = u + r.verifyCollectionLedgerTrueCount + a
  closed : r.openScope = none → a = 0 ∧ r.collectionVerifyScope = none
  unscopedId : r.unscopedVerifyScope.collectionId = none
  opened : ∀ scope ∈ r.collectionVerifyScope, scope.collectionId = r.openScope
  base_none : ∀ scope ∈ r.collectionVerifyScope, scope.verifyIndexBase = none → a = 0
  base_some : ∀ scope ∈ r.collectionVerifyScope, ∀ base ∈ scope.verifyIndexBase,
    base = u + r.verifyCollectionLedgerTrueCount
  recorded : ∀ scope ∈ r.collectionVerifyScope, 0 < a → a - 1 ∈ scope.scopeIndices
  terminal : ∀ scope ∈ r.collectionVerifyScope, ∀ index ∈ scope.terminalScopeIndex, index + 1 = a

/-- For every number of occurrences of the check that fits, there is a run with it. -/
structure Fillable (check : String) (r : Replay) (seen : List TraceEvent) (u a : ℕ) : Prop where
  layout : Layout r u a
  unscopedRoom : ∃ n, Fits check r.unscopedVerifyScope u n
  collectionRoom : ∀ scope ∈ r.collectionVerifyScope, ∃ n, Fits check scope a n
  run : ∀ u' nu na, u ≤ u' → (r.Pinned → u' = u) → Fits check r.unscopedVerifyScope u' nu →
    (∀ scope ∈ r.collectionVerifyScope, Fits check scope a na) →
    ∃ calls, Follows check r seen u' a nu na calls

/-- What the checks of a step's event say. -/
structure StepAccepted (p : Sampling) (stats : TraceStats) (r r' : Replay) (check : String)
    (step : SampledStep) (scope located : VerifyScope) : Prop where
  index_lt : step.verifyIndex < stats.trueCount
  last_lt : ∀ last ∈ r.verifyLastIndex, last < step.verifyIndex
  collectionId : step.collectionId = r.openScope
  current : r.verifyScope "verify_step" = .ok scope
  locate : scope.locate r.verifyCollectionLedgerTrueCount step = .ok located
  occurrence : located.requireOccurrence check step = .ok ()
  open_scope : located.collectionId.isSome → located.terminalScopeIndex = none
  retained : p.retains .sampled step = true
  after : r' = { r with
    verifyStepTotal := r.verifyStepTotal + 1
    verifyEmittedCount := r.verifyEmittedCount + 1 }.addStep (located.addStep check step) step

theorem applyVerifyStep_accepted {p : Sampling} {stats : TraceStats} {r r' : Replay}
    {check : String} {step : SampledStep}
    (h : r.applyVerifyStep p stats check (some step) = .ok r') :
    ∃ scope located, StepAccepted p stats r r' check step scope located := by
  simp only [Replay.applyVerifyStep, check_bind_eq_ok, require_eq_ok] at h
  obtain ⟨hindex, hlast, hid, h⟩ := h
  obtain ⟨scope, hscope, h⟩ := bind_eq_ok.mp h
  obtain ⟨located, hlocated, h⟩ := bind_eq_ok.mp h
  obtain ⟨after, haccept, h⟩ := bind_eq_ok.mp h
  simp only [VerifyScope.accept, check_bind_eq_ok, require_eq_ok] at haccept
  obtain ⟨-, -, hoccurrence, hopen, hretained, hafter⟩ := haccept
  obtain rfl := Except.ok.inj hafter
  exact ⟨scope, located, hindex, hlast, hid, hscope, hlocated, hoccurrence, hopen, hretained,
    (Except.ok.inj h).symm⟩

namespace Fillable

variable {p : Sampling} {stats : TraceStats} {check other : String} {r r' : Replay}
  {seen : List TraceEvent} {u a : ℕ} {step : SampledStep} {size : Option ℕ}
  {scope located : VerifyScope}

theorem start (check : String) (mode : VerifyEventMode) :
    Fillable check { verifyMode := mode } [] 0 0 := by
  have hempty : Follows check { verifyMode := mode } [] 0 0 0 0 [] := by
    constructor <;> simp [scopedSteps, scopeAfter, Replay.openScope, scopeCount, checkCount]
  constructor
  · constructor <;> simp [Replay.openScope]
  · exact ⟨0, Nat.le_refl 0⟩
  · simp
  · intro u nu na _ _ hfits _
    have hle : nu + 0 ≤ u := hfits
    obtain ⟨gap, rfl⟩ := Nat.exists_eq_add_of_le hle
    have hpad := hempty.pad rfl nu gap
    refine ⟨_, ⟨hpad.frame, hpad.scope, hpad.placed, hpad.length.trans ?_, hpad.unscoped.trans ?_,
      hpad.unscopedCheck.trans ?_, by simp [Replay.openScope], hpad.fresh, hpad.active_lt,
      hpad.ended⟩⟩ <;> omega

/-- The last event comes before the next position. -/
theorem total_le (h : Layout r u a) (hlast : ∀ last ∈ r.verifyLastIndex, last < step.verifyIndex) :
    u + r.verifyCollectionLedgerTrueCount + a ≤ step.verifyIndex := by
  rw [← h.total]
  cases hindex : r.verifyLastIndex with
  | none => exact Nat.zero_le _
  | some last => exact hlast last (by simp [hindex])

/-- The event of a step outside collections. -/
theorem unscopedStep (h : Fillable check r seen u a)
    (haccept : StepAccepted p stats r r' other step scope located) (hclosed : r.openScope = none) :
    Fillable check r' (seen ++ [.verifyStep size other (some step)]) (step.scopeIndex + 1) 0 := by
  obtain ⟨hzero, hnone⟩ := h.layout.closed hclosed
  have hactive : r.activeCollection = none := by simpa [Replay.openScope] using hclosed
  have hscope : scope = r.unscopedVerifyScope := by
    have hok := haccept.current
    simp only [Replay.verifyScope, hactive] at hok
    exact (Except.ok.inj hok).symm
  subst hscope
  have hlocated := haccept.locate
  unfold VerifyScope.locate at hlocated
  simp only [h.layout.unscopedId, check_bind_eq_ok, require_eq_ok] at hlocated
  obtain ⟨hindex, hsame⟩ := hlocated
  obtain rfl := Except.ok.inj hsame
  have htotal := total_le h.layout haccept.last_lt
  have hle : u ≤ step.scopeIndex := by omega
  obtain ⟨gap, hgap⟩ := Nat.exists_eq_add_of_le hle
  have hafter := haccept.after
  simp only [Replay.addStep, hactive] at hafter
  obtain ⟨n, hroom⟩ := h.unscopedRoom
  have hroom' : Fits check r.unscopedVerifyScope step.scopeIndex n := by
    rw [hgap]
    exact hroom.mono
  have hunpinned : ¬ r.Pinned := by
    rintro ⟨scope, hmem, -⟩
    simp [hnone] at hmem
  constructor
  · constructor <;> simp only [hafter]
    · simp only [Option.map_some, Option.getD_some]
      omega
    · exact fun _ => ⟨trivial, hnone⟩
    · exact h.layout.unscopedId
    · simp [hnone]
    · simp [hnone]
    · simp [hnone]
    · simp [hnone]
    · simp [hnone]
  · simp only [hafter]
    exact hroom'.room_addStep other
  · simp [hafter, hnone]
  · intro u' nu na hu _ hfits _
    obtain ⟨pad, rfl⟩ := Nat.exists_eq_add_of_le hu
    simp only [hafter] at hfits
    -- the steps after the event are padding
    obtain ⟨m, hm⟩ := hroom'.room_addStep other
    obtain ⟨n₁, hn₁, hle₁, hge₁⟩ := hfits.gap hm
    obtain ⟨n₀, hn₀, hn, hcheck⟩ := Fits.before_addStep haccept.occurrence hroom' hn₁
    obtain ⟨calls, hrun⟩ := h.run step.scopeIndex n₀ na hle (fun hpinned => absurd hpinned hunpinned)
      hn₀ (by simp [hnone])
    have hclosed' : r'.openScope = none := by simp [hafter, Replay.openScope]
    obtain ⟨calls', hstep⟩ := hrun.unscopedStep size hclosed
      (hclosed'.trans hclosed.symm) (by simp [hafter]) (by simp [hafter])
      (haccept.collectionId.trans hclosed) (by omega) rfl hcheck
    rw [hzero, ← hn] at hstep
    have hpad := hstep.pad hclosed' (nu - n₁) (pad - (nu - n₁))
    rw [show step.scopeIndex + 1 + (nu - n₁ + (pad - (nu - n₁))) = step.scopeIndex + 1 + pad by omega,
      show n₁ + (nu - n₁) = nu by omega] at hpad
    exact ⟨_, hpad⟩

/-- Where the checker puts an event of the open collection. -/
theorem located_eq (h : Layout r u a) (hscope : scope ∈ r.collectionVerifyScope) {id : ℕ}
    (hopen : r.openScope = some id)
    (hlocate : scope.locate r.verifyCollectionLedgerTrueCount step = .ok located)
    (hlast : ∀ last ∈ r.verifyLastIndex, last < step.verifyIndex) :
    ∃ u', u ≤ u' ∧ (r.Pinned → u' = u) ∧ a ≤ step.scopeIndex ∧
      step.verifyIndex = u' + r.verifyCollectionLedgerTrueCount + step.scopeIndex ∧
      located = { scope with verifyIndexBase := some (u' + r.verifyCollectionLedgerTrueCount) } := by
  have htotal := total_le h hlast
  unfold VerifyScope.locate at hlocate
  split at hlocate
  · next hid =>
    rw [h.opened scope hscope, hopen] at hid
    cases hid
  · next hbase =>
    rw [check_bind_eq_ok, require_eq_ok] at hlocate
    obtain ⟨hfirst, hsame⟩ := hlocate
    obtain rfl := Except.ok.inj hsame
    have hzero := h.base_none scope hscope hbase
    refine ⟨step.verifyIndex - r.verifyCollectionLedgerTrueCount, by omega, ?_, by omega, by omega, ?_⟩
    · rintro ⟨other, hother, hsome⟩
      obtain rfl := Option.some.inj (hscope.symm.trans hother)
      simp [hbase] at hsome
    · rw [Nat.sub_add_cancel (by omega)]
  · next base _ hbase =>
    rw [check_bind_eq_ok, require_eq_ok] at hlocate
    obtain ⟨hindex, hsame⟩ := hlocate
    obtain rfl := Except.ok.inj hsame
    have hat := h.base_some scope hscope base hbase
    refine ⟨u, Nat.le_refl u, fun _ => rfl, by omega, by omega, ?_⟩
    rw [← hat, ← hbase]

/-- The event of a step in the open collection. -/
theorem collectionStep (h : Fillable check r seen u a)
    (haccept : StepAccepted p stats r r' other step scope located) {id : ℕ}
    (hopen : r.openScope = some id) :
    ∃ u', Fillable check r' (seen ++ [.verifyStep size other (some step)]) u'
      (step.scopeIndex + 1) := by
  obtain ⟨active, hactive, rfl⟩ := Option.map_eq_some_iff.mp hopen
  have hscope : r.collectionVerifyScope = some scope := by
    have hok := haccept.current
    simp only [Replay.verifyScope, hactive] at hok
    split at hok
    · next current hcurrent =>
      rw [check_bind_eq_ok, require_eq_ok] at hok
      rw [hcurrent, Except.ok.inj hok.2]
    · cases hok
  obtain ⟨u', hu, hpinned, hle, hindex, rfl⟩ :=
    located_eq h.layout hscope hopen haccept.locate haccept.last_lt
  obtain ⟨gap, hgap⟩ := Nat.exists_eq_add_of_le hle
  have hafter := haccept.after
  simp only [Replay.addStep, hactive] at hafter
  obtain ⟨n, hroom⟩ := h.collectionRoom scope hscope
  have hroom' : Fits check { scope with
      verifyIndexBase := some (u' + r.verifyCollectionLedgerTrueCount) } step.scopeIndex n := by
    rw [hgap]
    exact hroom.mono
  have hterminal : scope.terminalScopeIndex = none := by
    apply haccept.open_scope
    simp [h.layout.opened scope hscope, hopen]
  refine ⟨u', ?_⟩
  constructor
  · constructor <;> simp only [hafter]
    · simp only [Option.map_some, Option.getD_some]
      omega
    · simp [Replay.openScope]
    · exact h.layout.unscopedId
    · simpa [Replay.openScope, VerifyScope.addStep, hactive] using h.layout.opened scope hscope
    · simp [VerifyScope.addStep]
    · simp [VerifyScope.addStep]
    · simp [VerifyScope.addStep]
    · simp only [Option.mem_some_iff, forall_eq', VerifyScope.addStep, hterminal]
      intro index hindex'
      split at hindex'
      · rw [Option.mem_some_iff.mp hindex']
      · cases hindex'
  · simp only [hafter]
    obtain ⟨n, hn⟩ := h.unscopedRoom
    obtain ⟨more, rfl⟩ := Nat.exists_eq_add_of_le hu
    exact ⟨n, hn.mono⟩
  · simp only [hafter, Option.mem_some_iff, forall_eq']
    exact hroom'.room_addStep other
  · intro u'' nu na hu'' hpinned' hfits hfits'
    have hfixed : u'' = u' := by
      apply hpinned'
      refine ⟨_, by simp only [hafter, Option.mem_some_iff]; rfl, ?_⟩
      simp [VerifyScope.addStep]
    subst hfixed
    simp only [hafter] at hfits
    have hlater := hfits' _ (by simp only [hafter, Option.mem_some_iff]; rfl)
    obtain ⟨n₁, hn₁, hn, hcheck⟩ := Fits.before_addStep haccept.occurrence hroom' hlater
    have hspread : Fits check scope (a + gap) n₁ := hgap ▸ hn₁
    obtain ⟨m, hm, hmle, hmge⟩ := hspread.gap hroom
    obtain ⟨calls, hrun⟩ := h.run u'' nu m hu hpinned hfits (by
      intro other hother
      obtain rfl := Option.some.inj (hscope.symm.trans hother)
      exact hm)
    have hopen' : r'.openScope = r.openScope := by simp [hafter, Replay.openScope, hactive]
    obtain ⟨calls', hstep⟩ := hrun.collectionStep size (m := n₁ - m)
      (g := gap - (n₁ - m)) hopen hopen' (by simp [hafter]) (by simp [hafter])
      (haccept.collectionId.trans hopen) (by omega) (by omega)
      (fun hsame => by rw [hcheck hsame]; omega)
    rw [show m + (n₁ - m) = n₁ by omega, ← hn] at hstep
    exact ⟨calls', hstep⟩

theorem pause (h : Fillable check r seen u a) (collectionId : Option ℕ) (pauses : ℕ) :
    Fillable check { r with pauseSlices := pauses } (seen ++ [.pause collectionId]) u a := by
  obtain ⟨htotal, hclosed, hid, hopened, hnone, hsome, hrecorded, hterminal⟩ := h.layout
  refine ⟨⟨htotal, hclosed, hid, hopened, hnone, hsome, hrecorded, hterminal⟩, h.unscopedRoom,
    h.collectionRoom, ?_⟩
  intro u' nu na hu hpinned hfits hfits'
  obtain ⟨calls, hrun⟩ := h.run u' nu na hu hpinned hfits hfits'
  exact ⟨_, hrun.pause collectionId pauses⟩

theorem collectionBegin (h : Fillable check r seen u a) (hclosed : r.openScope = none)
    (kind : TraceCollectionKind) :
    Fillable check { r with
      activeCollection := some (r.nextCollectionId, kind)
      nextCollectionId := r.nextCollectionId + 1
      collections := r.collections + 1
      collectionVerifyScope := some { collectionId := some r.nextCollectionId } }
      (seen ++ [.collectionBegin r.nextCollectionId kind]) u 0 := by
  obtain ⟨rfl, hnone⟩ := h.layout.closed hclosed
  have htotal := h.layout.total
  constructor
  · constructor <;> simp [Replay.openScope, htotal, h.layout.unscopedId]
  · exact h.unscopedRoom
  · simp only [Option.mem_some_iff, forall_eq']
    exact ⟨0, Nat.le_refl 0⟩
  · intro u' nu na hu _ hfits hfits'
    have hzero : na + 0 ≤ 0 := hfits' _ rfl
    obtain rfl : na = 0 := by omega
    obtain ⟨calls, hrun⟩ := h.run u' nu 0 hu
      (by rintro ⟨scope, hmem, -⟩; simp [hnone] at hmem) hfits (by simp [hnone])
    exact ⟨_, hrun.collectionBegin rfl rfl rfl⟩

theorem collectionEnd (h : Fillable check r seen u a) {id : ℕ} (hopen : r.openScope = some id)
    {kind : TraceCollectionKind} {ledger : VerifyLedger} (htrue : ledger.trueCount = a)
    (emitted ends : ℕ) :
    Fillable check { r with
      verifyCollectionLedgerTrueCount := r.verifyCollectionLedgerTrueCount + ledger.trueCount
      verifyCollectionLedgerEmittedCount := emitted
      collectionVerifyScope := none
      activeCollection := none
      collectionEnds := ends } (seen ++ [.collectionEnd id kind (some ledger)]) u 0 := by
  have htotal := h.layout.total
  constructor
  · constructor <;> simp only
    · omega
    · simp
    · exact h.layout.unscopedId
    all_goals simp
  · exact h.unscopedRoom
  · simp
  · intro u' nu na hu _ hfits _
    obtain ⟨gap, rfl⟩ := Nat.exists_eq_add_of_le hu
    obtain ⟨n, hroom⟩ := h.unscopedRoom
    obtain ⟨m, hm, hle, hge⟩ := hfits.gap hroom
    have hinside : ∃ na, ∀ scope ∈ r.collectionVerifyScope, Fits check scope a na := by
      cases hscope : r.collectionVerifyScope with
      | none => exact ⟨0, by simp⟩
      | some scope =>
        obtain ⟨n, hn⟩ := h.collectionRoom scope hscope
        exact ⟨n, by simpa using hn⟩
    obtain ⟨inner, hinner⟩ := hinside
    obtain ⟨calls, hrun⟩ := h.run u m inner (Nat.le_refl u) (fun _ => rfl) hm hinner
    have hend := hrun.collectionEnd kind { r with
      verifyCollectionLedgerTrueCount := r.verifyCollectionLedgerTrueCount + ledger.trueCount
      verifyCollectionLedgerEmittedCount := emitted
      collectionVerifyScope := none
      activeCollection := none
      collectionEnds := ends } hopen htrue rfl rfl (by rw [htrue])
    have hpad := hend.pad rfl (nu - m) (gap - (nu - m))
    rw [show u + (nu - m + (gap - (nu - m))) = u + gap by omega,
      show m + (nu - m) = nu by omega] at hpad
    refine ⟨_, ⟨hpad.frame, hpad.scope, hpad.placed, hpad.length, hpad.unscoped, hpad.unscopedCheck,
      by simp [Replay.openScope], hpad.fresh, hpad.active_lt, hpad.ended⟩⟩

end Fillable

/-! ## What is recorded -/

theorem firstMissing_none {stride trueCount : ℕ} {next : ℕ} {retained : List ℕ}
    (h : firstMissing stride trueCount next retained = none) (k : ℕ)
    (hlt : next + k * stride < trueCount) : next + k * stride ∈ retained := by
  induction retained generalizing next k with
  | nil =>
    simp only [firstMissing, ite_eq_right_iff, reduceCtorEq, imp_false] at h
    omega
  | cons index retained ih =>
    simp only [firstMissing, ne_eq, ite_not] at h
    split at h
    · next heq =>
      subst heq
      cases k with
      | zero => simp
      | succ k =>
        have hshift : index + (k + 1) * stride = index + stride + k * stride := by
          rw [Nat.add_one_mul]
          omega
        rw [hshift] at hlt ⊢
        exact List.mem_cons_of_mem _ (ih h k hlt)
    · cases h

/-- The checker has found every multiple of the stride. -/
theorem mem_of_requireStride {p : Sampling} {scopeIndices : List ℕ} {trueCount : ℕ}
    {event : String} (h : requireStride p scopeIndices trueCount event = .ok ()) :
    ∀ index < trueCount, index % p.stride = 0 → index ∈ scopeIndices := by
  intro index hlt hmod
  simp only [requireStride, require_eq_ok] at h
  have hmul : 0 + index / p.stride * p.stride = index := by
    rw [Nat.zero_add, Nat.div_mul_cancel (Nat.dvd_of_mod_eq_zero hmod)]
  have hmem := firstMissing_none h.2 (index / p.stride) (by rwa [hmul])
  rw [hmul, List.mem_insertionSort] at hmem
  exact List.mem_of_mem_filter hmem

/-- The sampled records in a list of events. -/
def eventRecords (events : List TraceEvent) : List (String × SampledStep) :=
  events.filterMap TraceEvent.record?

/-- The sampled records of a scope. -/
def scopeRecords (scope : Option ℕ) (events : List TraceEvent) : List (String × SampledStep) :=
  (eventRecords events).filter fun record => record.2.collectionId = scope

/-- What the checker keeps about a scope are its records. -/
structure ScopeRecords (scope : VerifyScope) (records : List (String × SampledStep)) : Prop where
  emittedCount : scope.emittedCount = records.length
  indices : scope.scopeIndices = records.map fun record => record.2.scopeIndex
  order : scope.collectionId.isSome → scope.firstCheckOrder = firstOccurrences (records.map Prod.fst)
  unseen : ∀ check, scope.lastCheckIndices check = none ↔ check ∉ records.map Prod.fst
  terminal : ∀ index ∈ scope.terminalScopeIndex, ∃ record ∈ records,
    record.2.terminal ∧ record.2.scopeIndex = index

theorem ScopeRecords.empty (id : Option ℕ) : ScopeRecords { collectionId := id } [] := by
  constructor <;> simp [firstOccurrences]

theorem ScopeRecords.addStep {scope : VerifyScope} {records : List (String × SampledStep)}
    (h : ScopeRecords scope records) (base : Option ℕ) (check : String) (step : SampledStep) :
    ScopeRecords ({ scope with verifyIndexBase := base }.addStep check step)
      (records ++ [(check, step)]) := by
  constructor
  · simp [VerifyScope.addStep, h.emittedCount]
  · simp [VerifyScope.addStep, h.indices]
  · intro hid
    have horder := h.order hid
    have hunseen := h.unseen check
    rw [List.map_append, List.map_singleton, firstOccurrences_snoc]
    simp only [VerifyScope.addStep, mem_firstOccurrences] at hid ⊢
    by_cases hmem : check ∈ records.map Prod.fst
    · have hseen : ¬ scope.lastCheckIndices check = none := fun hnone => hunseen.mp hnone hmem
      rw [if_neg fun hboth => hseen hboth.2, if_pos hmem, horder]
    · rw [if_pos ⟨hid, hunseen.mpr hmem⟩, if_neg hmem, horder]
  · intro other
    have hunseen := h.unseen other
    by_cases hsame : other = check
    · simp [VerifyScope.addStep, hsame]
    · simpa [VerifyScope.addStep, hsame] using hunseen
  · intro index hindex
    simp only [VerifyScope.addStep] at hindex
    split at hindex
    · next hterminal =>
      exact ⟨(check, step), by simp, hterminal, Option.some.inj hindex⟩
    · obtain ⟨record, hmem, hrecord⟩ := h.terminal index hindex
      exact ⟨record, List.mem_append_left _ hmem, hrecord⟩

/-- A ledger and the records of its collection: the positions that the rule keeps for their place
are recorded. -/
structure LedgerRecords (p : Sampling) (ledger : VerifyLedger)
    (records : List (String × SampledStep)) : Prop where
  emittedCount : ledger.emittedCount = records.length
  checks : ledger.checks = firstOccurrences (records.map Prod.fst)
  stride : ∀ index < ledger.trueCount, index % p.stride = 0 →
    ∃ record ∈ records, record.2.scopeIndex = index
  terminal : ledger.trueCount ≠ 0 →
    ∃ record ∈ records, record.2.terminal ∧ record.2.scopeIndex + 1 = ledger.trueCount

/-- The replay keeps the records of the events that it has seen. -/
structure Recorded (p : Sampling) (stats : TraceStats) (r : Replay) (seen : List TraceEvent) :
    Prop where
  mode : r.verifyMode = .sampled
  last_lt : ∀ last ∈ r.verifyLastIndex, last < stats.trueCount
  emittedCount : r.verifyEmittedCount = (eventRecords seen).length
  indices : r.verifyIndices = (eventRecords seen).map fun record => record.2.verifyIndex
  unscopedId : r.unscopedVerifyScope.collectionId = none
  unscoped : ScopeRecords r.unscopedVerifyScope (scopeRecords none seen)
  collection : ∀ id ∈ r.openScope, ∀ scope ∈ r.collectionVerifyScope,
    scope.collectionId = some id → ScopeRecords scope (scopeRecords (some id) seen)
  retained : ∀ record ∈ eventRecords seen, p.retains .sampled record.2 = true
  fresh : ∀ record ∈ eventRecords seen, ∀ id ∈ record.2.collectionId, id < r.nextCollectionId
  active_lt : ∀ id ∈ r.openScope, id < r.nextCollectionId
  ended : ∀ id kind ledger, .collectionEnd id kind (some ledger) ∈ seen →
    id < r.nextCollectionId ∧ r.openScope ≠ some id ∧
      LedgerRecords p ledger (scopeRecords (some id) seen)

/-- An event that is no verify step has no record. -/
theorem eventRecords_snoc_none {seen : List TraceEvent} {event : TraceEvent}
    (h : event.record? = none) : eventRecords (seen ++ [event]) = eventRecords seen := by
  simp [eventRecords, h]

theorem eventRecords_snoc_step (seen : List TraceEvent) (size : Option ℕ) (check : String)
    (step : SampledStep) :
    eventRecords (seen ++ [.verifyStep size check (some step)]) =
      eventRecords seen ++ [(check, step)] := by
  simp [eventRecords, TraceEvent.record?]

theorem scopeRecords_snoc_none {seen : List TraceEvent} {event : TraceEvent} (scope : Option ℕ)
    (h : event.record? = none) : scopeRecords scope (seen ++ [event]) = scopeRecords scope seen := by
  rw [scopeRecords, eventRecords_snoc_none h, scopeRecords]

theorem scopeRecords_snoc_step (seen : List TraceEvent) (size : Option ℕ) (check : String)
    (step : SampledStep) (scope : Option ℕ) :
    scopeRecords scope (seen ++ [.verifyStep size check (some step)]) = scopeRecords scope seen ++
      if step.collectionId = scope then [(check, step)] else [] := by
  simp only [scopeRecords, eventRecords_snoc_step, List.filter_append, List.filter_cons,
    List.filter_nil, decide_eq_true_eq]

namespace Recorded

variable {p : Sampling} {stats : TraceStats} {check : String} {r r' : Replay}
  {seen : List TraceEvent} {step : SampledStep} {size : Option ℕ} {scope located : VerifyScope}

theorem start (p : Sampling) (stats : TraceStats) : Recorded p stats { verifyMode := .sampled } [] := by
  constructor <;> simp [eventRecords, scopeRecords, ScopeRecords.empty, Replay.openScope]

/-- Ledgers of closed collections are not about later events. -/
theorem ended_snoc (h : Recorded p stats r seen) (event : TraceEvent)
    (hother : ∀ record ∈ event.record?, record.2.collectionId = r.openScope) {id : ℕ}
    {kind : TraceCollectionKind} {ledger : VerifyLedger}
    (hmem : .collectionEnd id kind (some ledger) ∈ seen) :
    id < r.nextCollectionId ∧ r.openScope ≠ some id ∧
      LedgerRecords p ledger (scopeRecords (some id) (seen ++ [event])) := by
  obtain ⟨hlt, hne, hledger⟩ := h.ended id kind ledger hmem
  refine ⟨hlt, hne, ?_⟩
  have hsame : scopeRecords (some id) (seen ++ [event]) = scopeRecords (some id) seen := by
    cases hrecord : event.record? with
    | none => exact scopeRecords_snoc_none _ hrecord
    | some record =>
      have hid := hother record (by simp [hrecord])
      have hskip : ¬ record.2.collectionId = some id := fun heq => hne (hid.symm.trans heq)
      simp [scopeRecords, eventRecords, List.filterMap_append, hrecord, hskip]
  rwa [hsame]

/-- The event of a step. -/
theorem verifyStep (h : Recorded p stats r seen)
    (haccept : StepAccepted p stats r r' check step scope located) :
    Recorded p stats r' (seen ++ [.verifyStep size check (some step)]) := by
  have hafter := haccept.after
  have hid := haccept.collectionId
  have hbase : ∃ base, located = { scope with verifyIndexBase := base } := by
    have hlocate := haccept.locate
    unfold VerifyScope.locate at hlocate
    split at hlocate <;> rw [check_bind_eq_ok, require_eq_ok] at hlocate
    · exact ⟨scope.verifyIndexBase, (Except.ok.inj hlocate.2).symm⟩
    · exact ⟨some step.verifyIndex, (Except.ok.inj hlocate.2).symm⟩
    · exact ⟨scope.verifyIndexBase, (Except.ok.inj hlocate.2).symm⟩
  obtain ⟨base, rfl⟩ := hbase
  have hretained : ∀ record ∈ eventRecords (seen ++ [.verifyStep size check (some step)]),
      p.retains .sampled record.2 = true := by
    intro record hrecord
    rw [eventRecords_snoc_step, List.mem_append, List.mem_singleton] at hrecord
    rcases hrecord with hold | rfl
    · exact h.retained record hold
    · exact haccept.retained
  have hfresh : ∀ record ∈ eventRecords (seen ++ [.verifyStep size check (some step)]),
      ∀ id ∈ record.2.collectionId, id < r.nextCollectionId := by
    intro record hrecord id hrecordid
    rw [eventRecords_snoc_step, List.mem_append, List.mem_singleton] at hrecord
    rcases hrecord with hold | rfl
    · exact h.fresh record hold id hrecordid
    · exact h.active_lt id (hid ▸ hrecordid)
  have hended : ∀ id kind ledger, .collectionEnd id kind (some ledger) ∈
      seen ++ [.verifyStep size check (some step)] →
      id < r.nextCollectionId ∧ r.openScope ≠ some id ∧ LedgerRecords p ledger
        (scopeRecords (some id) (seen ++ [.verifyStep size check (some step)])) := by
    intro id kind ledger hmem
    simp only [List.mem_append, List.mem_singleton, reduceCtorEq, or_false] at hmem
    exact h.ended_snoc _ (by simpa [TraceEvent.record?] using hid) hmem
  have hcurrent := haccept.current
  cases hactive : r.activeCollection with
  | none =>
    have hclosed : r.openScope = none := by simp [Replay.openScope, hactive]
    simp only [Replay.verifyScope, hactive] at hcurrent
    obtain rfl := Except.ok.inj hcurrent
    rw [hclosed] at hid
    have hopen' : r'.openScope = r.openScope := by
      simp [hafter, Replay.addStep, hactive, Replay.openScope]
    simp only [Replay.addStep, hactive] at hafter
    constructor
    · simp only [hafter, h.mode]
    · simpa only [hafter, Option.mem_some_iff, forall_eq'] using haccept.index_lt
    · simp only [hafter, eventRecords_snoc_step, h.emittedCount, List.length_append,
        List.length_singleton]
    · simp only [hafter, eventRecords_snoc_step, h.indices, List.map_append, List.map_singleton]
    · simp only [hafter]
      exact h.unscopedId
    · simp only [hafter, scopeRecords_snoc_step, hid, if_true]
      exact h.unscoped.addStep base check step
    · simp [hopen', hclosed]
    · exact hretained
    · simpa only [hafter] using hfresh
    · rw [hopen']
      simpa only [hafter] using h.active_lt
    · rw [hopen']
      simpa only [hafter] using hended
  | some active =>
    have hopen : r.openScope = some active.1 := by simp [Replay.openScope, hactive]
    have hscope : r.collectionVerifyScope = some scope ∧ scope.collectionId = some active.1 := by
      simp only [Replay.verifyScope, hactive] at hcurrent
      split at hcurrent
      · next current hsome =>
        rw [check_bind_eq_ok, require_eq_ok] at hcurrent
        obtain rfl := Except.ok.inj hcurrent.2
        exact ⟨hsome, hcurrent.1⟩
      · cases hcurrent
    rw [hopen] at hid
    have hopen' : r'.openScope = r.openScope := by
      simp [hafter, Replay.addStep, hactive, Replay.openScope]
    simp only [Replay.addStep, hactive] at hafter
    constructor
    · simp only [hafter, h.mode]
    · simpa only [hafter, Option.mem_some_iff, forall_eq'] using haccept.index_lt
    · simp only [hafter, eventRecords_snoc_step, h.emittedCount, List.length_append,
        List.length_singleton]
    · simp only [hafter, eventRecords_snoc_step, h.indices, List.map_append, List.map_singleton]
    · simp only [hafter]
      exact h.unscopedId
    · simp only [hafter, scopeRecords_snoc_step, hid, reduceCtorEq, if_false, List.append_nil]
      exact h.unscoped
    · intro id hopenid after hafterscope _
      rw [hopen', hopen] at hopenid
      obtain rfl := Option.some.inj hopenid
      simp only [hafter, Option.mem_some_iff] at hafterscope
      subst hafterscope
      rw [scopeRecords_snoc_step, if_pos hid]
      exact (h.collection active.1 (by simp [hopen]) scope hscope.1 hscope.2).addStep base check step
    · exact hretained
    · simpa only [hafter] using hfresh
    · rw [hopen']
      simpa only [hafter] using h.active_lt
    · rw [hopen']
      simpa only [hafter] using hended

theorem pause (h : Recorded p stats r seen) (collectionId : Option ℕ) (pauses : ℕ) :
    Recorded p stats { r with pauseSlices := pauses } (seen ++ [.pause collectionId]) := by
  have hnone : (TraceEvent.pause collectionId).record? = none := rfl
  constructor <;> try simp only [eventRecords_snoc_none hnone, scopeRecords_snoc_none _ hnone]
  · exact h.mode
  · exact h.last_lt
  · exact h.emittedCount
  · exact h.indices
  · exact h.unscopedId
  · exact h.unscoped
  · exact h.collection
  · exact h.retained
  · exact h.fresh
  · exact h.active_lt
  · intro id kind ledger hmem
    simp only [List.mem_append, List.mem_singleton, reduceCtorEq, or_false] at hmem
    exact h.ended id kind ledger hmem

theorem collectionBegin (h : Recorded p stats r seen) (kind : TraceCollectionKind) :
    Recorded p stats { r with
      activeCollection := some (r.nextCollectionId, kind)
      nextCollectionId := r.nextCollectionId + 1
      collections := r.collections + 1
      collectionVerifyScope := some { collectionId := some r.nextCollectionId } }
      (seen ++ [.collectionBegin r.nextCollectionId kind]) := by
  have hnone : (TraceEvent.collectionBegin r.nextCollectionId kind).record? = none := rfl
  constructor <;> try simp only [eventRecords_snoc_none hnone, scopeRecords_snoc_none _ hnone]
  · exact h.mode
  · exact h.last_lt
  · exact h.emittedCount
  · exact h.indices
  · exact h.unscopedId
  · exact h.unscoped
  · intro id hid scope hscope _
    obtain rfl : r.nextCollectionId = id := by simpa [Replay.openScope] using hid
    obtain rfl := Option.some.inj hscope
    have hempty : scopeRecords (some r.nextCollectionId) seen = [] := by
      simp only [scopeRecords, List.filter_eq_nil_iff, decide_eq_true_eq]
      intro record hrecord hid
      have hlt := h.fresh record hrecord r.nextCollectionId hid
      omega
    rw [hempty]
    exact ScopeRecords.empty _
  · exact h.retained
  · intro record hrecord id hid
    exact Nat.lt_succ_of_lt (h.fresh record hrecord id hid)
  · intro id hid
    obtain rfl : r.nextCollectionId = id := by simpa [Replay.openScope] using hid
    exact Nat.lt_succ_self _
  · intro id kind' ledger hmem
    simp only [List.mem_append, List.mem_singleton, reduceCtorEq, or_false] at hmem
    obtain ⟨hlt, -, hledger⟩ := h.ended id kind' ledger hmem
    refine ⟨Nat.lt_succ_of_lt hlt, ?_, hledger⟩
    intro hsame
    have heq : r.nextCollectionId = id := Option.some.inj hsame
    omega

/-- What the checks at the end of a collection say. -/
theorem finish_accepted {id : ℕ} {ledger : VerifyLedger}
    (hfinish : r.finishSampledVerifyCollection p id ledger = .ok r') :
    ∃ scope, r.collectionVerifyScope = some scope ∧ scope.collectionId = some id ∧
      ledger.emittedCount = scope.emittedCount ∧ ledger.checks = scope.firstCheckOrder ∧
      (∀ index ∈ scope.scopeIndices, index < ledger.trueCount) ∧
      (∀ index < ledger.trueCount, index % p.stride = 0 → index ∈ scope.scopeIndices) ∧
      (ledger.trueCount ≠ 0 → scope.terminalScopeIndex = some (ledger.trueCount - 1)) ∧
      r' = { r with
        verifyCollectionLedgerTrueCount := r.verifyCollectionLedgerTrueCount + ledger.trueCount
        verifyCollectionLedgerEmittedCount :=
          r.verifyCollectionLedgerEmittedCount + ledger.emittedCount
        collectionVerifyScope := none } := by
  unfold Replay.finishSampledVerifyCollection at hfinish
  split at hfinish
  · cases hfinish
  next scope hscope =>
  simp only [check_bind_eq_ok, require_eq_ok] at hfinish
  obtain ⟨hid, hemitted, hchecks, hbelow, hrest⟩ := hfinish
  refine ⟨scope, hscope, hid, hemitted, hchecks, hbelow, ?_⟩
  split at hrest
  · next hzero =>
    rw [check_bind_eq_ok, require_eq_ok] at hrest
    refine ⟨?_, fun hne => absurd hzero hne, (Except.ok.inj hrest.2).symm⟩
    intro index hlt
    omega
  · rw [check_bind_eq_ok, check_bind_eq_ok, require_eq_ok] at hrest
    exact ⟨mem_of_requireStride hrest.1, fun _ => hrest.2.1, (Except.ok.inj hrest.2.2).symm⟩

theorem collectionEnd (h : Recorded p stats r seen) {id : ℕ} (hopen : r.openScope = some id)
    {kind : TraceCollectionKind} {ledger : VerifyLedger} (hscope : r.collectionVerifyScope = some scope)
    (hid : scope.collectionId = some id) (hemitted : ledger.emittedCount = scope.emittedCount)
    (hchecks : ledger.checks = scope.firstCheckOrder)
    (hstride : ∀ index < ledger.trueCount, index % p.stride = 0 → index ∈ scope.scopeIndices)
    (hterminal : ledger.trueCount ≠ 0 → scope.terminalScopeIndex = some (ledger.trueCount - 1))
    (trueCount emitted ends : ℕ) :
    Recorded p stats { r with
      verifyCollectionLedgerTrueCount := trueCount
      verifyCollectionLedgerEmittedCount := emitted
      collectionVerifyScope := none
      activeCollection := none
      collectionEnds := ends } (seen ++ [.collectionEnd id kind (some ledger)]) := by
  have hnone : (TraceEvent.collectionEnd id kind (some ledger)).record? = none := rfl
  have hrecords := h.collection id (by simp [hopen]) scope hscope hid
  constructor <;> try simp only [eventRecords_snoc_none hnone, scopeRecords_snoc_none _ hnone]
  · exact h.mode
  · exact h.last_lt
  · exact h.emittedCount
  · exact h.indices
  · exact h.unscopedId
  · exact h.unscoped
  · simp [Replay.openScope]
  · exact h.retained
  · exact h.fresh
  · simp [Replay.openScope]
  · intro id' kind' ledger' hmem
    rw [List.mem_append, List.mem_singleton] at hmem
    rcases hmem with hold | hnew
    · obtain ⟨hlt, -, hledger⟩ := h.ended id' kind' ledger' hold
      exact ⟨hlt, by simp [Replay.openScope], hledger⟩
    · simp only [TraceEvent.collectionEnd.injEq, Option.some.injEq] at hnew
      obtain ⟨rfl, -, rfl⟩ := hnew
      refine ⟨h.active_lt id' (by simp [hopen]), by simp [Replay.openScope], ?_⟩
      constructor
      · rw [hemitted, hrecords.emittedCount]
      · rw [hchecks, hrecords.order (by simp [hid])]
      · intro index hlt hmod
        have hmem := hstride index hlt hmod
        rw [hrecords.indices, List.mem_map] at hmem
        exact hmem
      · intro hne
        obtain ⟨record, hmem, hlast, hpos⟩ :=
          hrecords.terminal (ledger'.trueCount - 1) (hterminal hne)
        exact ⟨record, hmem, hlast, by omega⟩

end Recorded

/-! ## The whole ledger -/

/-- An accepted event keeps both invariants. -/
theorem apply_fillable {p : Sampling} {stats : TraceStats} {check : String} {r r' : Replay}
    {seen : List TraceEvent} {u a : ℕ} {event : TraceEvent}
    (hfill : Fillable check r seen u a) (hrecorded : Recorded p stats r seen)
    (hschema : validateEventSchema r.verifyMode event = .ok ())
    (happly : r.apply p stats event = .ok r') :
    (∃ u' a', Fillable check r' (seen ++ [event]) u' a') ∧ Recorded p stats r' (seen ++ [event]) := by
  cases event with
  | verifyStep size other sampled =>
    cases sampled with
    | none =>
      simp only [validateEventSchema, check_bind_eq_ok, require_eq_ok, hrecorded.mode] at hschema
      simp at hschema
    | some step =>
      obtain ⟨scope, located, haccept⟩ := applyVerifyStep_accepted happly
      refine ⟨?_, hrecorded.verifyStep haccept⟩
      cases hopen : r.openScope with
      | none => exact ⟨_, _, hfill.unscopedStep haccept hopen⟩
      | some id =>
        obtain ⟨u', hafter⟩ := hfill.collectionStep haccept hopen
        exact ⟨u', _, hafter⟩
  | pause collectionId =>
    simp only [Replay.apply, check_bind_eq_ok, require_eq_ok] at happly
    obtain rfl := Except.ok.inj happly.2
    exact ⟨⟨u, a, hfill.pause collectionId _⟩, hrecorded.pause collectionId _⟩
  | collectionBegin id kind =>
    simp only [Replay.apply, check_bind_eq_ok, require_eq_ok, hrecorded.mode, if_true] at happly
    obtain ⟨hclosed, rfl, hafter⟩ := happly
    obtain rfl := Except.ok.inj hafter
    have hnone : r.openScope = none := by simp [Replay.openScope, hclosed]
    have hbegin := hfill.collectionBegin hnone kind
    have hrecord := hrecorded.collectionBegin kind
    rw [hrecorded.mode] at hbegin hrecord
    exact ⟨⟨u, 0, hbegin⟩, hrecord⟩
  | collectionEnd id kind ledger =>
    cases ledger with
    | none =>
      simp only [validateEventSchema, check_bind_eq_ok, require_eq_ok, hrecorded.mode] at hschema
      simp at hschema
    | some ledger =>
      simp only [Replay.apply, check_bind_eq_ok, require_eq_ok] at happly
      obtain ⟨hactive, happly⟩ := happly
      obtain ⟨finished, hfinish, hafter⟩ := bind_eq_ok.mp happly
      have hopen : r.openScope = some id := by simp [Replay.openScope, hactive]
      obtain ⟨scope, hscope, hid, hemitted, hchecks, hbelow, hstride, hterminal, rfl⟩ :=
        Recorded.finish_accepted hfinish
      obtain rfl := Except.ok.inj hafter
      have htrue : ledger.trueCount = a := by
        by_cases hzero : ledger.trueCount = 0
        · by_contra hne
          have hmem := hfill.layout.recorded scope hscope (by omega)
          have hlt := hbelow _ hmem
          omega
        · have hlast := hfill.layout.terminal scope hscope _ (hterminal hzero)
          omega
      refine ⟨⟨u, 0, hfill.collectionEnd hopen htrue _ _⟩, ?_⟩
      exact hrecorded.collectionEnd hopen hscope hid hemitted hchecks hstride hterminal _ _ _

theorem replayEvents_fillable {p : Sampling} {stats : TraceStats} {check : String} {r r' : Replay}
    {seen events : List TraceEvent} {u a : ℕ} (hfill : Fillable check r seen u a)
    (hrecorded : Recorded p stats r seen)
    (hreplay : Replay.replayEvents p stats r events = .ok r') :
    (∃ u' a', Fillable check r' (seen ++ events) u' a') ∧ Recorded p stats r' (seen ++ events) := by
  induction events generalizing r seen u a with
  | nil =>
    obtain rfl := Except.ok.inj hreplay
    rw [List.append_nil]
    exact ⟨⟨u, a, hfill⟩, hrecorded⟩
  | cons event events ih =>
    simp only [Replay.replayEvents, check_bind_eq_ok] at hreplay
    obtain ⟨hschema, hreplay⟩ := hreplay
    obtain ⟨middle, happly, hrest⟩ := bind_eq_ok.mp hreplay
    obtain ⟨⟨u', a', hfill'⟩, hrecorded'⟩ := apply_fillable hfill hrecorded hschema happly
    rw [List.append_cons]
    exact ih hfill' hrecorded' hrest

/-- A run for a check in which every recorded step stands at its place, with the recorded numbers
of steps. The counters of the steps of the check are the recorded ones. -/
structure Realises (check : String) (calls : List TraceCall) (events : List TraceEvent)
    (stats : TraceStats) : Prop where
  frame : calls.filter (fun call => !call.isVerifyStep) = events.filterMap TraceEvent.call?
  placed : ∀ record ∈ eventRecords events, Placed check (scopedSteps none 0 calls) record
  trueCount : stats.trueCount = (scopedSteps none 0 calls).length
  unscopedTrueCount : stats.unscopedTrueCount = scopeCount none (scopedSteps none 0 calls)
  ledgers : ∀ id kind ledger, .collectionEnd id kind (some ledger) ∈ events →
    ledger.trueCount = scopeCount (some id) (scopedSteps none 0 calls)

/-- Every record is one that the rule keeps, and every position that it keeps for its place has a
record: the head of the run and, in each scope, the multiples of the stride and the last step. -/
structure Complete (p : Sampling) (events : List TraceEvent) (stats : TraceStats) : Prop where
  retained : ∀ record ∈ eventRecords events, p.retains .sampled record.2 = true
  head : ∀ index < min p.headWindow stats.trueCount,
    ∃ record ∈ eventRecords events, record.2.verifyIndex = index
  stride : ∀ index < stats.unscopedTrueCount, index % p.stride = 0 →
    ∃ record ∈ scopeRecords none events, record.2.scopeIndex = index
  ledgers : ∀ id kind ledger, .collectionEnd id kind (some ledger) ∈ events →
    LedgerRecords p ledger (scopeRecords (some id) events)
  emittedCount : stats.emittedCount = (eventRecords events).length
  unscopedEmittedCount : stats.unscopedEmittedCount = (scopeRecords none events).length

end LanguageRuntime.Trace
