import LanguageRuntime.Trace.Writer
import Mathlib.Data.List.Sort

/-!
# The verify ledger of the trace checker

`tools/trace_conservation_check.py`, as far as the verify steps, pauses and collection scopes go:
the schema of their events, the replay and the comparison with `stats.json` at the end.
-/

namespace LanguageRuntime.Trace

/-- A `TraceViolation`: its code, the kind of event and what was expected. -/
structure TraceViolation where
  code : String
  event : String
  expected : String
deriving DecidableEq, Repr

/-- The check that `_violate` guards. -/
def require (c : Prop) [Decidable c] (code event expected : String) : Except TraceViolation Unit :=
  if c then .ok () else .error ⟨code, event, expected⟩

/-! ## Schema -/

/-- `VERIFY_STEP_CHECKS`. -/
def verifyStepChecks : List String :=
  ["validate_after_collection", "incremental_tricolor", "shadow_marking", "shadow_compaction",
    "remembered_set", "weak_targets", "ephemerons", "intern_table"]

/-- `_require_verify_checks`. -/
def requireVerifyChecks : List String → List String → Except TraceViolation Unit
  | _, [] => .ok ()
  | seen, check :: checks => do
    require (check ∈ verifyStepChecks) "SCHEMA" "gc" "verify_checks"
    require (check ∉ seen) "VERIFY_SAMPLING" "gc" "unique verify_checks"
    requireVerifyChecks (seen ++ [check]) checks

/-- `_validate_event_schema` for the events of the ledger. -/
def validateEventSchema (mode : VerifyEventMode) : TraceEvent → Except TraceViolation Unit
  | .verifyStep _ check sampled => do
    require (sampled.isSome ↔ mode = .sampled) "SCHEMA" "verify_step" "keys"
    require (check ∈ verifyStepChecks) "SCHEMA" "verify_step" "check"
    match sampled with
    | some step =>
      require (step.collectionId = none → step.terminal = false) "VERIFY_SAMPLING" "verify_step"
        "unscoped terminal=0"
    | none => .ok ()
  | .collectionEnd _ _ ledger => do
    require (ledger.isSome ↔ mode = .sampled) "SCHEMA" "gc" "keys"
    match ledger with
    | some ledger => do
      requireVerifyChecks [] ledger.checks
      require (ledger.emittedCount ≤ ledger.trueCount) "VERIFY_SAMPLING" "gc"
        "verify_true_count >= verify_emitted_count"
    | none => .ok ()
  | .pause _ => .ok ()
  | .collectionBegin _ _ => .ok ()

/-- `_validate_stats_schema`. -/
def validateStatsSchema (p : Sampling) (stats : TraceStats) : Except TraceViolation Unit := do
  require (stats.headWindow = p.headWindow ∧ stats.stride = p.stride ∧
    stats.retentionRule = stats.mode.retentionRule) "VERIFY_SAMPLING" "verify_events" "policy"
  require (stats.emittedCount ≤ stats.trueCount ∧
    stats.unscopedEmittedCount ≤ stats.unscopedTrueCount ∧
    stats.unscopedTrueCount ≤ stats.trueCount ∧ stats.unscopedEmittedCount ≤ stats.emittedCount)
    "VERIFY_SAMPLING" "verify_events" "consistent ledger"
  require (stats.mode = .full → stats.trueCount = stats.emittedCount ∧
    stats.unscopedTrueCount = stats.unscopedEmittedCount) "VERIFY_SAMPLING" "verify_events"
    "full mode true and emitted ledgers are equal"
  require (stats.emittedCount = stats.verifyStepTotal) "VERIFY_SAMPLING" "verify_events"
    "emitted_count"

/-! ## Scopes -/

/-- `VerifyScope`; a dictionary is a function to its optional values. -/
structure VerifyScope where
  collectionId : Option ℕ
  emittedCount : ℕ := 0
  verifyIndexBase : Option ℕ := none
  lastScopeIndex : Option ℕ := none
  scopeIndices : List ℕ := []
  lastCheckIndices : String → Option ℕ := fun _ => none
  lastCheckScopeIndices : String → Option ℕ := fun _ => none
  lastCheckEmittedOrdinals : String → Option ℕ := fun _ => none
  firstCheckOrder : List String := []
  terminalScopeIndex : Option ℕ := none

namespace VerifyScope

/-- The position of an event in its scope agrees with its position in the run. -/
def locate (scope : VerifyScope) (completedTrueCount : ℕ) (step : SampledStep) :
    Except TraceViolation VerifyScope :=
  match scope.collectionId, scope.verifyIndexBase with
  | none, _ => do
    require (step.verifyIndex = step.scopeIndex + completedTrueCount) "VERIFY_SAMPLING"
      "verify_step" "verify_index"
    return scope
  | some _, none => do
    require (step.scopeIndex = 0) "VERIFY_SAMPLING" "verify_step" "first_retained_scope_index"
    return { scope with verifyIndexBase := some step.verifyIndex }
  | some _, some base => do
    require (step.verifyIndex = base + step.scopeIndex) "VERIFY_SAMPLING" "verify_step"
      "verify_index"
    return scope

/-- The occurrences of a check since its previous event fit in the omitted positions. -/
def requireOccurrence (scope : VerifyScope) (check : String) (step : SampledStep) :
    Except TraceViolation Unit :=
  match scope.lastCheckIndices check with
  | some previous => do
    require (previous < step.checkIndex) "VERIFY_SAMPLING" "verify_step"
      "check_index_greater_than"
    match scope.lastCheckScopeIndices check, scope.lastCheckEmittedOrdinals check with
    | some previousScopeIndex, some previousOrdinal =>
      let checkDelta : ℤ := step.checkIndex - previous
      let scopePositionsBetween : ℤ := step.scopeIndex - previousScopeIndex - 1
      let emittedPositionsBetween : ℤ := scope.emittedCount - previousOrdinal - 1
      let omittedPositionsBetween := scopePositionsBetween - emittedPositionsBetween
      require (0 ≤ omittedPositionsBetween ∧ checkDelta ≤ omittedPositionsBetween + 1)
        "VERIFY_SAMPLING" "verify_step" "check_index_delta_at_most"
    | _, _ => .error ⟨"VERIFY_SAMPLING", "verify_step", "previous_check_ordinals"⟩
  | none =>
    let maximumFirstCheckIndex : ℤ :=
      if scope.collectionId.isNone then step.scopeIndex - scope.emittedCount else 0
    require ((step.checkIndex : ℤ) ≤ maximumFirstCheckIndex) "VERIFY_SAMPLING" "verify_step"
      "first_emitted_check_index_at_most"

/-- The scope after an event of a check. -/
def addStep (scope : VerifyScope) (check : String) (step : SampledStep) : VerifyScope :=
  let update := fun (entries : String → Option ℕ) (value : ℕ) (other : String) =>
    if other = check then some value else entries other
  { scope with
    emittedCount := scope.emittedCount + 1
    lastScopeIndex := some step.scopeIndex
    scopeIndices := scope.scopeIndices ++ [step.scopeIndex]
    lastCheckIndices := update scope.lastCheckIndices step.checkIndex
    lastCheckScopeIndices := update scope.lastCheckScopeIndices step.scopeIndex
    lastCheckEmittedOrdinals := update scope.lastCheckEmittedOrdinals scope.emittedCount
    firstCheckOrder :=
      if scope.collectionId.isSome ∧ scope.lastCheckIndices check = none then
        scope.firstCheckOrder ++ [check]
      else scope.firstCheckOrder
    terminalScopeIndex :=
      if step.terminal then some step.scopeIndex else scope.terminalScopeIndex }

/-- The checks of an event against its scope, and the scope after it. -/
def accept (scope : VerifyScope) (p : Sampling) (check : String) (step : SampledStep) :
    Except TraceViolation VerifyScope := do
  require (∀ last ∈ scope.lastScopeIndex, last < step.scopeIndex) "VERIFY_SAMPLING" "verify_step"
    "scope_index_greater_than"
  require (step.checkIndex ≤ step.scopeIndex) "VERIFY_SAMPLING" "verify_step"
    "check_index_at_most_scope_index"
  scope.requireOccurrence check step
  require (scope.collectionId.isSome → scope.terminalScopeIndex = none) "VERIFY_SAMPLING"
    "verify_step" "no verify event after terminal"
  require (p.retains .sampled step) "VERIFY_SAMPLING" "verify_step"
    "event eligible under sampled retention union"
  return scope.addStep check step

end VerifyScope

/-- The stride indices found, in order: the first one that is missing. -/
def firstMissing (stride trueCount : ℕ) : ℕ → List ℕ → Option ℕ
  | next, [] => if next < trueCount then some next else none
  | next, index :: retained =>
    if index ≠ next then some next else firstMissing stride trueCount (next + stride) retained

/-- `_stride_evidence` finds every stride index of the scope. -/
def requireStride (p : Sampling) (scopeIndices : List ℕ) (trueCount : ℕ) (event : String) :
    Except TraceViolation Unit :=
  let retained := (scopeIndices.filter fun index => index % p.stride = 0).insertionSort (· ≤ ·)
  let expectedCount := if trueCount = 0 then 0 else (trueCount - 1) / p.stride + 1
  require (retained.length = expectedCount ∧ firstMissing p.stride trueCount 0 retained = none)
    "VERIFY_SAMPLING" event "required_stride_count"

/-! ## Replay -/

/-- The part of `_Replay` that the ledger uses. -/
structure Replay where
  verifyMode : VerifyEventMode
  activeCollection : Option (ℕ × TraceCollectionKind) := none
  nextCollectionId : ℕ := 0
  verifyStepTotal : ℕ := 0
  pauseSlices : ℕ := 0
  collections : ℕ := 0
  collectionEnds : ℕ := 0
  verifyEmittedCount : ℕ := 0
  verifyCollectionEmittedCount : ℕ := 0
  verifyCollectionLedgerTrueCount : ℕ := 0
  verifyCollectionLedgerEmittedCount : ℕ := 0
  verifyLastIndex : Option ℕ := none
  verifyIndices : List ℕ := []
  unscopedVerifyScope : VerifyScope := { collectionId := none }
  collectionVerifyScope : Option VerifyScope := none

namespace Replay

/-- The scope that the events of the active collection belong to. -/
def verifyScope (r : Replay) (event : String) : Except TraceViolation VerifyScope :=
  match r.activeCollection with
  | none => .ok r.unscopedVerifyScope
  | some (activeId, _) =>
    match r.collectionVerifyScope with
    | some scope => do
      require (scope.collectionId = some activeId) "VERIFY_SAMPLING" event "active_verify_scope"
      return scope
    | none => .error ⟨"VERIFY_SAMPLING", event, "active_verify_scope"⟩

/-- The replay after an event of a scope. -/
def addStep (r : Replay) (scope : VerifyScope) (step : SampledStep) : Replay :=
  let r := { r with
    verifyLastIndex := some step.verifyIndex
    verifyIndices := r.verifyIndices ++ [step.verifyIndex] }
  match r.activeCollection with
  | none => { r with unscopedVerifyScope := scope }
  | some _ => { r with
      collectionVerifyScope := some scope
      verifyCollectionEmittedCount := r.verifyCollectionEmittedCount + 1 }

/-- `_apply_verify_step`, with the count of the event in `apply`. -/
def applyVerifyStep (r : Replay) (p : Sampling) (stats : TraceStats) (check : String)
    (sampled : Option SampledStep) : Except TraceViolation Replay :=
  let r := { r with
    verifyStepTotal := r.verifyStepTotal + 1
    verifyEmittedCount := r.verifyEmittedCount + 1 }
  match sampled with
  | none =>
    match r.activeCollection with
    | none => .ok { r with unscopedVerifyScope :=
        { r.unscopedVerifyScope with emittedCount := r.unscopedVerifyScope.emittedCount + 1 } }
    | some _ => .ok { r with
        verifyCollectionEmittedCount := r.verifyCollectionEmittedCount + 1 }
  | some step => do
    require (step.verifyIndex < stats.trueCount) "VERIFY_SAMPLING" "verify_step"
      "verify_index_less_than"
    require (∀ last ∈ r.verifyLastIndex, last < step.verifyIndex) "VERIFY_SAMPLING" "verify_step"
      "verify_index_greater_than"
    require (step.collectionId = r.activeCollection.map Prod.fst) "VERIFY_SAMPLING" "verify_step"
      "collection_id"
    let scope ← r.verifyScope "verify_step"
    let scope ← scope.locate r.verifyCollectionLedgerTrueCount step
    let scope ← scope.accept p check step
    return r.addStep scope step

/-- `_finish_sampled_verify_collection`. -/
def finishSampledVerifyCollection (r : Replay) (p : Sampling) (collectionId : ℕ)
    (ledger : VerifyLedger) : Except TraceViolation Replay :=
  match r.collectionVerifyScope with
  | none => .error ⟨"VERIFY_SAMPLING", "gc", "active_verify_scope"⟩
  | some scope => do
    require (scope.collectionId = some collectionId) "VERIFY_SAMPLING" "gc" "active_verify_scope"
    require (ledger.emittedCount = scope.emittedCount) "VERIFY_SAMPLING" "gc"
      "verify_emitted_count"
    require (ledger.checks = scope.firstCheckOrder) "VERIFY_SAMPLING" "gc" "verify_checks"
    require (∀ index ∈ scope.scopeIndices, index < ledger.trueCount) "VERIFY_SAMPLING" "gc"
      "scope_index_less_than"
    if ledger.trueCount = 0 then
      require (scope.emittedCount = 0 ∧ ledger.checks = [] ∧ scope.terminalScopeIndex = none)
        "VERIFY_SAMPLING" "gc" "empty scope"
    else
      requireStride p scope.scopeIndices ledger.trueCount "gc"
      require (scope.terminalScopeIndex = some (ledger.trueCount - 1)) "VERIFY_SAMPLING" "gc"
        "terminal_scope_index"
    return { r with
      verifyCollectionLedgerTrueCount := r.verifyCollectionLedgerTrueCount + ledger.trueCount
      verifyCollectionLedgerEmittedCount :=
        r.verifyCollectionLedgerEmittedCount + ledger.emittedCount
      collectionVerifyScope := none }

/-- `apply` on the events of the ledger. -/
def apply (r : Replay) (p : Sampling) (stats : TraceStats) :
    TraceEvent → Except TraceViolation Replay
  | .verifyStep _ check sampled => r.applyVerifyStep p stats check sampled
  | .pause collectionId => do
    require (collectionId = r.activeCollection.map Prod.fst) "LIFECYCLE" "gc" "active_collection_id"
    return { r with pauseSlices := r.pauseSlices + 1 }
  | .collectionBegin collectionId kind => do
    require (r.activeCollection = none) "LIFECYCLE" "gc" "no active logical collection"
    require (collectionId = r.nextCollectionId) "EVENT_SEQUENCE" "gc" "next_collection_id"
    return { r with
      activeCollection := some (collectionId, kind)
      nextCollectionId := r.nextCollectionId + 1
      collections := r.collections + 1
      collectionVerifyScope :=
        if r.verifyMode = .sampled then some { collectionId := some collectionId }
        else r.collectionVerifyScope }
  | .collectionEnd collectionId kind ledger => do
    require (r.activeCollection = some (collectionId, kind)) "LIFECYCLE" "gc" "active_collection"
    let r ← match ledger with
      | some ledger => r.finishSampledVerifyCollection p collectionId ledger
      | none => pure r
    return { r with
      activeCollection := none
      collectionEnds := r.collectionEnds + 1 }

/-- `_verify_verify_event_ledgers`. -/
def verifyVerifyEventLedgers (r : Replay) (p : Sampling) (stats : TraceStats) :
    Except TraceViolation Unit :=
  match r.verifyMode with
  | .full =>
    require (stats.trueCount = r.verifyEmittedCount ∧ stats.emittedCount = r.verifyEmittedCount ∧
      stats.unscopedTrueCount = r.unscopedVerifyScope.emittedCount ∧
      stats.unscopedEmittedCount = r.unscopedVerifyScope.emittedCount ∧
      stats.verifyStepTotal = r.verifyEmittedCount) "VERIFY_SAMPLING" "stats" "full ledger"
  | .sampled => do
    require (∀ index < min p.headWindow stats.trueCount, index ∈ r.verifyIndices)
      "VERIFY_SAMPLING" "stats" "required_verify_head"
    require (∀ index ∈ r.unscopedVerifyScope.scopeIndices, index < stats.unscopedTrueCount)
      "VERIFY_SAMPLING" "stats" "unscoped_scope_index_less_than"
    requireStride p r.unscopedVerifyScope.scopeIndices stats.unscopedTrueCount "stats"
    require (stats.trueCount = r.verifyCollectionLedgerTrueCount + stats.unscopedTrueCount)
      "VERIFY_SAMPLING" "stats" "true_count"
    require (stats.emittedCount =
        r.verifyCollectionLedgerEmittedCount + stats.unscopedEmittedCount ∧
      stats.emittedCount = r.verifyEmittedCount ∧
      stats.unscopedEmittedCount = r.unscopedVerifyScope.emittedCount ∧
      r.verifyCollectionLedgerEmittedCount = r.verifyCollectionEmittedCount ∧
      stats.verifyStepTotal = r.verifyEmittedCount) "VERIFY_SAMPLING" "stats" "emitted ledger"

/-- `verify_stats`. -/
def verifyStats (r : Replay) (p : Sampling) (stats : TraceStats) : Except TraceViolation Unit := do
  require (r.activeCollection = none) "LIFECYCLE" "eof" "logical collection closed"
  require (r.collections = r.collectionEnds) "LIFECYCLE" "eof" "collections"
  require (stats.pauseSlices = r.pauseSlices) "STATS_CONSISTENCY" "stats" "pause_slices"
  require (stats.collectionCount = r.collections) "STATS_CONSISTENCY" "stats" "collection_count"
  r.verifyVerifyEventLedgers p stats
  require (stats.verifyStepTotal = r.verifyStepTotal) "STATS_CONSISTENCY" "stats" "event_totals"

/-- The events of a bundle, one after the other. -/
def replayEvents (p : Sampling) (stats : TraceStats) :
    Replay → List TraceEvent → Except TraceViolation Replay
  | r, [] => .ok r
  | r, event :: events => do
    validateEventSchema r.verifyMode event
    replayEvents p stats (← r.apply p stats event) events

end Replay

/-- `check_trace_bundle`; returns the replay that the statistics were compared with. -/
def checkTraceBundle (p : Sampling) (events : List TraceEvent) (stats : TraceStats) :
    Except TraceViolation Replay := do
  validateStatsSchema p stats
  let r ← Replay.replayEvents p stats { verifyMode := stats.mode } events
  r.verifyStats p stats
  return r

end LanguageRuntime.Trace
