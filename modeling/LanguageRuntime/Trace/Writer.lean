import Mathlib.Algebra.BigOperators.Intervals
import Mathlib.Order.Lattice.Nat

/-!
# The verify ledger of the trace writer

`JsonlTraceWriter` of `src/trace.cpp`, as far as the verify steps go: the counters, the retention
rule, the collection scopes and the summary in `stats.json`. A callback that throws leaves no
trace, so it is an error here.
-/

namespace LanguageRuntime.Trace

/-! ## Records -/

inductive TraceVerifyBoundary where
  | none
  | collectionEnd
deriving DecidableEq, Repr

inductive TraceCollectionKind where
  | major
  | minor
deriving DecidableEq, Repr

inductive VerifyEventMode where
  | full
  | sampled
deriving DecidableEq, Repr

/-- The parameters of the retention rule, `kVerifyHeadWindow` and `kVerifyStride`. -/
structure Sampling where
  headWindow : ℕ
  stride : ℕ
deriving DecidableEq, Repr

def traceSampling : Sampling := ⟨40, 16⟩

/-- The `retention_rule` of a mode, `kSampledVerifyRetentionRule` when sampled. -/
def VerifyEventMode.retentionRule : VerifyEventMode → String
  | full => "all"
  | sampled =>
    "head40_or_collection_first_last_first_check_stride16;unscoped_head40_or_stride16"

/-- The fields that a sampled `verify_step` event has after `check`. -/
structure SampledStep where
  verifyIndex : ℕ
  collectionId : Option ℕ
  scopeIndex : ℕ
  checkIndex : ℕ
  terminal : Bool
deriving DecidableEq, Repr

/-- The fields that a sampled `collection_end` event has after `live_objects`. -/
structure VerifyLedger where
  trueCount : ℕ
  emittedCount : ℕ
  checks : List String
deriving DecidableEq, Repr

inductive TraceEvent where
  | verifyStep (size : Option ℕ) (check : String) (sampled : Option SampledStep)
  | pause (collectionId : Option ℕ)
  | collectionBegin (collectionId : ℕ) (kind : TraceCollectionKind)
  | collectionEnd (collectionId : ℕ) (kind : TraceCollectionKind) (ledger : Option VerifyLedger)
deriving DecidableEq, Repr

/-- What `stats.json` holds about verify steps, pauses and collections. -/
structure TraceStats where
  pauseSlices : ℕ
  collectionCount : ℕ
  verifyStepTotal : ℕ
  mode : VerifyEventMode
  headWindow : ℕ
  stride : ℕ
  retentionRule : String
  trueCount : ℕ
  emittedCount : ℕ
  unscopedTrueCount : ℕ
  unscopedEmittedCount : ℕ
deriving DecidableEq, Repr

/-! ## The writer -/

/-- The counters of one scope: steps, emitted steps and the steps of each check. A check that has
no entry in the map of counters has been counted zero times. -/
structure ScopeCounts where
  trueCount : ℕ := 0
  emittedCount : ℕ := 0
  checkCounts : String → ℕ := fun _ => 0

/-- One more step of a check. -/
def ScopeCounts.count (counts : ScopeCounts) (check : String) : ScopeCounts :=
  { counts with
    trueCount := counts.trueCount + 1
    checkCounts := fun other =>
      if other = check then counts.checkCounts other + 1 else counts.checkCounts other }

def ScopeCounts.emit (counts : ScopeCounts) : ScopeCounts :=
  { counts with emittedCount := counts.emittedCount + 1 }

structure ActiveCollection where
  id : ℕ
  kind : TraceCollectionKind
  counts : ScopeCounts := {}
  verifyChecks : List String := []
  verifyTerminalSeen : Bool := false

/-- The counters of `JsonlTraceWriter::Impl`; `unscoped` holds the `unscoped_verify_` ones. -/
structure Writer where
  verifyMode : VerifyEventMode
  verifyStepTotal : ℕ := 0
  pauseSlices : ℕ := 0
  activeCollection : Option ActiveCollection := none
  nextCollectionId : ℕ := 0
  verifyTrueCount : ℕ := 0
  verifyEmittedCount : ℕ := 0
  unscoped : ScopeCounts := {}

/-- Whether the retention rule keeps a step. -/
def Sampling.retains (p : Sampling) (mode : VerifyEventMode) (step : SampledStep) : Bool :=
  match mode with
  | .full => true
  | .sampled =>
    let inHead := decide (step.verifyIndex < p.headWindow)
    let onStride := decide (step.scopeIndex % p.stride = 0)
    if step.collectionId.isSome then
      inHead || step.scopeIndex == 0 || step.checkIndex == 0 || onStride || step.terminal
    else inHead || onStride

/-- The event of a retained step. -/
def verifyStepEvent (mode : VerifyEventMode) (size : Option ℕ) (check : String)
    (step : SampledStep) : TraceEvent :=
  match mode with
  | .full => .verifyStep size check none
  | .sampled => .verifyStep size check (some step)

namespace Writer

/-- The collection after a step of a check. -/
def countCollection (collection : ActiveCollection) (check : String) (terminal : Bool) :
    ActiveCollection :=
  { collection with
    counts := collection.counts.count check
    verifyChecks :=
      if collection.counts.checkCounts check = 0 then collection.verifyChecks ++ [check]
      else collection.verifyChecks
    verifyTerminalSeen := terminal || collection.verifyTerminalSeen }

/-- The position of the next step, in the run, in its scope and among the steps of its check. -/
def nextStep (w : Writer) (check : String) (terminal : Bool) : SampledStep :=
  let counts := match w.activeCollection with
    | some collection => collection.counts
    | none => w.unscoped
  { verifyIndex := w.verifyTrueCount
    collectionId := w.activeCollection.map ActiveCollection.id
    scopeIndex := counts.trueCount
    checkIndex := counts.checkCounts check
    terminal := terminal }

/-- The counters after a step, emitted or not. -/
def countStep (w : Writer) (check : String) (terminal : Bool) : Writer :=
  match w.activeCollection with
  | some collection => { w with
      verifyTrueCount := w.verifyTrueCount + 1
      activeCollection := some (countCollection collection check terminal) }
  | none => { w with
      verifyTrueCount := w.verifyTrueCount + 1
      unscoped := w.unscoped.count check }

/-- The counters after the event of a step. -/
def emitStep (w : Writer) : Writer :=
  let w := { w with
    verifyStepTotal := w.verifyStepTotal + 1
    verifyEmittedCount := w.verifyEmittedCount + 1 }
  match w.activeCollection with
  | some collection =>
    { w with activeCollection := some { collection with counts := collection.counts.emit } }
  | none => { w with unscoped := w.unscoped.emit }

def onVerifyStep (p : Sampling) (w : Writer) (check : String) (elementsExamined : Option ℕ)
    (boundary : TraceVerifyBoundary) : Except String (Writer × List TraceEvent) := do
  let terminal := decide (boundary = .collectionEnd)
  match w.activeCollection with
  | none =>
    if terminal then throw "trace terminal verify step occurred outside a collection"
  | some collection =>
    if collection.verifyTerminalSeen then
      if terminal then throw "trace collection received a duplicate terminal verify step"
      throw "trace collection received a verify step after its terminal"
  let step := w.nextStep check terminal
  let w := w.countStep check terminal
  if p.retains w.verifyMode step then
    return (w.emitStep, [verifyStepEvent w.verifyMode elementsExamined check step])
  return (w, [])

def onPauseSlice (w : Writer) : Writer × List TraceEvent :=
  ({ w with pauseSlices := w.pauseSlices + 1 },
    [.pause (w.activeCollection.map ActiveCollection.id)])

def onLogicalCollectionBegin (w : Writer) (kind : TraceCollectionKind) :
    Except String (Writer × List TraceEvent) :=
  match w.activeCollection with
  | some _ => .error "trace logical collection began while another was active"
  | none =>
    .ok ({ w with
      activeCollection := some { id := w.nextCollectionId, kind := kind }
      nextCollectionId := w.nextCollectionId + 1 },
      [.collectionBegin w.nextCollectionId kind])

/-- The ledger that a `collection_end` event carries in sampled mode. -/
def verifyLedger (mode : VerifyEventMode) (collection : ActiveCollection) : Option VerifyLedger :=
  match mode with
  | .full => none
  | .sampled => some {
      trueCount := collection.counts.trueCount
      emittedCount := collection.counts.emittedCount
      checks := collection.verifyChecks }

def onLogicalCollectionEnd (w : Writer) : Except String (Writer × List TraceEvent) :=
  match w.activeCollection with
  | none => .error "trace logical collection ended without a begin"
  | some collection =>
    if w.verifyMode = .sampled ∧ collection.counts.trueCount ≠ 0 ∧ !collection.verifyTerminalSeen then
      .error "trace nonempty collection ended without a terminal verify step"
    else
      .ok ({ w with activeCollection := none },
        [.collectionEnd collection.id collection.kind (verifyLedger w.verifyMode collection)])

/-- The part of `write_stats` about verify steps, pauses and collections. -/
def writeStats (p : Sampling) (w : Writer) : Except String TraceStats :=
  match w.activeCollection with
  | some _ => .error "trace run ended inside a collection transaction"
  | none => .ok {
      pauseSlices := w.pauseSlices
      collectionCount := w.nextCollectionId
      verifyStepTotal := w.verifyStepTotal
      mode := w.verifyMode
      headWindow := p.headWindow
      stride := p.stride
      retentionRule := w.verifyMode.retentionRule
      trueCount := w.verifyTrueCount
      emittedCount := w.verifyEmittedCount
      unscopedTrueCount := w.unscoped.trueCount
      unscopedEmittedCount := w.unscoped.emittedCount }

end Writer

/-! ## Runs -/

/-- A callback of the writer. -/
inductive TraceCall where
  | verifyStep (check : String) (elementsExamined : Option ℕ) (boundary : TraceVerifyBoundary)
  | pauseSlice
  | collectionBegin (kind : TraceCollectionKind)
  | collectionEnd
deriving DecidableEq, Repr

namespace Writer

def onCall (p : Sampling) (w : Writer) : TraceCall → Except String (Writer × List TraceEvent)
  | .verifyStep check elementsExamined boundary => w.onVerifyStep p check elementsExamined boundary
  | .pauseSlice => .ok w.onPauseSlice
  | .collectionBegin kind => w.onLogicalCollectionBegin kind
  | .collectionEnd => w.onLogicalCollectionEnd

/-- The callbacks of a run and the events they write. -/
def record (p : Sampling) : Writer → List TraceCall → Except String (Writer × List TraceEvent)
  | w, [] => .ok (w, [])
  | w, call :: calls => do
    let (w, events) ← w.onCall p call
    let (w, later) ← record p w calls
    return (w, events ++ later)

end Writer

/-- The events and the statistics of a run from program start to program exit. -/
def writeTrace (p : Sampling) (mode : VerifyEventMode) (calls : List TraceCall) :
    Except String (List TraceEvent × TraceStats) := do
  let (w, events) ← Writer.record p { verifyMode := mode } calls
  let stats ← w.writeStats p
  return (events, stats)

end LanguageRuntime.Trace
