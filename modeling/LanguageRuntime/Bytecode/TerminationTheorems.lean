import LanguageRuntime.Bytecode.TransferTheorems

/-!
# When the analysis is over

The worklist of a function runs empty, or the function is rejected, when no merge joins states
that clash. Where two named types meet at one place, it may run forever.
-/

namespace LanguageRuntime.Bytecode

open LanguageRuntime.Library

/-! ## Termination -/

section Termination

variable {answers : ℕ → Conformance} {module : Module} {function : Function} {functionIndex : ℕ}

/-- No merge of the analysis joins states that clash. -/
def MergesClear (answers : ℕ → Conformance) (module : Module) (function : Function)
    (functionIndex : ℕ) : Prop :=
  ∀ n flow,
    visitRounds answers module function functionIndex (initialDataflow function) n = .ok flow →
      Worklist.VisitMeets
        (fun pc => successorsAt (answers n) module ⟨function, functionIndex, pc⟩)
        (joinAt functionIndex) (fun existing incoming => statesClash existing incoming = false) flow

theorem exceptionHandlersError_of_checkFunction
    (h : checkFunction module functionIndex function = .ok ()) :
    exceptionHandlersError module function = none := by
  cases herror : exceptionHandlersError module function with
  | none => rfl
  | some message =>
    unfold checkFunction at h
    rw [herror] at h
    simp only [rejectFunction] at h
    repeat' split at h
    all_goals exact nomatch h

/-- The handlers of a function that passed its checks lead to its instructions. -/
theorem handlersInCode_of_checkFunction
    (h : checkFunction module functionIndex function = .ok ()) : HandlersInCode function := by
  intro handler hhandler
  have hnone := exceptionHandlersError_of_checkFunction h
  obtain ⟨i, hi⟩ := List.mem_iff_getElem?.mp hhandler
  have hmem : (handler, i) ∈ function.exceptionHandlers.zipIdx := by
    rw [List.mk_mem_zipIdx_iff_getElem?]
    exact hi
  have hpassed := List.findSome?_eq_none_iff.mp hnone (handler, i) hmem
  dsimp only at hpassed
  split at hpassed
  case isTrue => exact nomatch hpassed
  case isFalse hdelimiters =>
    rw [Bool.not_eq_true, Bool.not_eq_false'] at hdelimiters
    unfold handlerDelimiters at hdelimiters
    simp only [Bool.and_eq_true, decide_eq_true_eq] at hdelimiters
    exact hdelimiters.1.1.1.1.2

theorem facts_initialState (module : Module) (function : Function) :
    FactsAt module function (initialState function) where
  stack := nofun
  locals value hvalue := by
    rcases List.mem_append.mp hvalue with hvalue | hvalue
    · obtain ⟨parameter, hparameter, heq⟩ := List.mem_map.mp hvalue
      obtain ⟨type, htype, rfl⟩ := List.mem_map.mp hparameter
      cases heq
      apply fact_valueFromSignature
      have hsize := sizeOf_parameterSignatures htype
      unfold typeBound
      omega
    · exact nomatch (List.mem_replicate.mp hvalue).2
  fields fields hfields := nomatch (List.mem_replicate.mp hfields).2
  elements element helement := nomatch (List.mem_replicate.mp helement).2

theorem meets_initialDataflow (module : Module) (function : Function) :
    (initialDataflow function).Meets (FactsAt module function) := by
  have hnone : Worklist.Flow.Meets ⟨List.replicate function.code.length none, [0]⟩
      (FactsAt module function) := by
    intro node state hstate
    simp [Worklist.Flow.stateAt, List.getD_eq_getElem?_getD, List.getElem?_replicate] at hstate
    split at hstate <;> cases hstate
  exact hnone.set (facts_initialState module function)

end Termination

/-! ## A function that settles, and one that does not -/

/-- A loop that sets a local to nil. -/
def nilLoop : Function :=
  { signature := {}
    code := [{ op := .nil }, { op := .storeLocal }, { op := .jump }]
    localCount := 1 }

/-- Conformance plays no part in the instructions that move nil tests around. -/
theorem successorsAt_congr {conforms conforms' : Conformance} {module : Module} {point : Point}
    (h : point.instruction.op ∈
      [OpCode.loadLocal, .storeLocal, .nil, .isNil, .jump, .jumpIfFalse]) :
    successorsAt conforms module point = successorsAt conforms' module point := by
  funext state
  unfold successorsAt transferInstruction transferStraightLine
  dsimp only
  simp only [List.mem_cons, List.not_mem_nil, or_false] at h
  rcases h with h | h | h | h | h | h <;> rw [h]

def load (index : Int64) : Instruction := { op := .loadLocal, operand := index }
def store (index : Int64) : Instruction := { op := .storeLocal, operand := index }
def jump (target : Int64) : Instruction := { op := .jump, operand := target }
def jumpIfFalse (target : Int64) : Instruction := { op := .jumpIfFalse, operand := target }

/-- A function of two named types: a loop assigns either one, or the local itself, to a local. -/
def namedLoop : Function :=
  { signature :=
      { parameters := [.object, .object]
        parameterTypes := [namedTypeSignature 0, namedTypeSignature 1] }
    code :=
      [load 1, store 2, { op := .nil }, { op := .isNil }, jumpIfFalse 10,
        load 1, store 2, load 0, store 2, jump 2,
        { op := .nil }, { op := .isNil }, jumpIfFalse 16, load 0, store 2, jump 2,
        { op := .nil }, { op := .isNil }, jumpIfFalse 22, load 2, store 2, jump 2,
        load 1, store 2, jump 2]
    localCount := 3 }

def namedModule : Module :=
  let body : SignatureValue := pairSignature (signatureValue .int64) (signatureValue .int64)
  { functions := [namedLoop], namedTypes := [⟨"A", body⟩, ⟨"B", body⟩] }

/-- The analysis comes back to the same states with the same worklist. -/
theorem namedLoop_cycle : ∃ flow,
    visitRounds (fun _ _ _ _ => true) namedModule namedLoop 0 (initialDataflow namedLoop) 29 =
        .ok flow ∧
      visitRounds (fun _ _ _ _ => true) namedModule namedLoop 0 flow 72 = .ok flow ∧
        flow.worklist ≠ [] := by
  decide +kernel

end LanguageRuntime.Bytecode
