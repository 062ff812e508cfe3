import Mathlib.Algebra.BigOperators.Intervals
import Mathlib.Data.Prod.Lex
import Mathlib.Order.Lattice.Nat

/-!
# Worklist iteration

A worklist algorithm keeps a state for each node of a graph and a queue of nodes to visit. A
visit runs the transfer function of the node and merges the states it leads to into those of
their targets; a target whose state changes is queued again. The merge may fail, and it need not
be a semilattice: what it has to satisfy is a hypothesis of each rule.
-/

namespace LanguageRuntime.Library.Worklist

variable {σ ε : Type}

/-- The states of the nodes, and the nodes to visit, first one first. -/
structure Flow (σ : Type) where
  states : List (Option σ)
  worklist : List ℕ
deriving DecidableEq

def Flow.stateAt (flow : Flow σ) (node : ℕ) : Option σ := flow.states.getD node none

/-- Merges a state into the one of its target. `join` returns the joined state when it differs
from the one the target has. -/
def merge (join : ℕ → σ → σ → Except ε (Option σ)) (flow : Flow σ) (successor : ℕ × σ) :
    Except ε (Flow σ) :=
  match flow.stateAt successor.1 with
  | none =>
    .ok ⟨flow.states.set successor.1 (some successor.2), flow.worklist ++ [successor.1]⟩
  | some existing =>
    match join successor.1 existing successor.2 with
    | .error e => .error e
    | .ok (some joined) =>
      .ok ⟨flow.states.set successor.1 (some joined), flow.worklist ++ [successor.1]⟩
    | .ok none => .ok flow

/-- Visits the first node of the worklist. -/
def visit (transfer : ℕ → σ → Except ε (List (ℕ × σ))) (join : ℕ → σ → σ → Except ε (Option σ))
    (flow : Flow σ) : Except ε (Flow σ) :=
  match flow.worklist with
  | [] => .ok flow
  | node :: worklist =>
    match flow.stateAt node with
    | none => .ok ⟨flow.states, worklist⟩
    | some state =>
      match transfer node state with
      | .error e => .error e
      | .ok successors => successors.foldlM (merge join) ⟨flow.states, worklist⟩

/-- The first visits. The transfer function may differ from visit to visit. -/
def visits (transfer : ℕ → ℕ → σ → Except ε (List (ℕ × σ)))
    (join : ℕ → σ → σ → Except ε (Option σ)) (flow : Flow σ) : ℕ → Except ε (Flow σ)
  | 0 => .ok flow
  | n + 1 => visits transfer join flow n >>= visit (transfer n) join

variable {transfer : ℕ → σ → Except ε (List (ℕ × σ))} {join : ℕ → σ → σ → Except ε (Option σ)}
  {flow flow' : Flow σ} {successor : ℕ × σ} {successors : List (ℕ × σ)} {node : ℕ} {state : σ}

/-! ## One merge -/

theorem Flow.stateAt_set_self {joined : σ} {worklist : List ℕ} (h : node < flow.states.length) :
    Flow.stateAt ⟨flow.states.set node (some joined), worklist⟩ node = some joined := by
  simp [Flow.stateAt, List.getD_eq_getElem?_getD, h]

theorem Flow.stateAt_set_ne {joined : σ} {worklist : List ℕ} {other : ℕ} (h : other ≠ node) :
    Flow.stateAt ⟨flow.states.set node (some joined), worklist⟩ other = flow.stateAt other := by
  simp [Flow.stateAt, List.getD_eq_getElem?_getD, List.getElem?_set_ne h.symm]

theorem Flow.lt_length_of_stateAt (h : flow.stateAt node = some state) :
    node < flow.states.length := by
  by_contra hle
  rw [Flow.stateAt, List.getD_eq_getElem?_getD, List.getElem?_eq_none (not_lt.mp hle)] at h
  exact nomatch h

/-- Everything a merge can do. -/
theorem merge_cases (h : merge join flow successor = .ok flow') :
    (flow.stateAt successor.1 = none ∧
      flow' = ⟨flow.states.set successor.1 (some successor.2),
        flow.worklist ++ [successor.1]⟩) ∨
    (∃ existing joined, flow.stateAt successor.1 = some existing ∧
      join successor.1 existing successor.2 = .ok (some joined) ∧
      flow' = ⟨flow.states.set successor.1 (some joined), flow.worklist ++ [successor.1]⟩) ∨
    (∃ existing, flow.stateAt successor.1 = some existing ∧
      join successor.1 existing successor.2 = .ok none ∧ flow' = flow) := by
  unfold merge at h
  split at h
  case h_1 hnone =>
    cases h
    exact .inl ⟨hnone, rfl⟩
  case h_2 existing hexisting =>
    split at h
    case h_1 => exact nomatch h
    case h_2 joined hjoined =>
      cases h
      exact .inr (.inl ⟨existing, joined, hexisting, hjoined, rfl⟩)
    case h_3 hunchanged =>
      cases h
      exact .inr (.inr ⟨existing, hexisting, hunchanged, rfl⟩)

theorem length_merge (h : merge join flow successor = .ok flow') :
    flow'.states.length = flow.states.length := by
  rcases merge_cases h with ⟨-, rfl⟩ | ⟨_, _, -, -, rfl⟩ | ⟨_, -, -, rfl⟩ <;> simp

theorem foldlM_merge_cons (h : (successor :: successors).foldlM (merge join) flow = .ok flow') :
    ∃ middle, merge join flow successor = .ok middle ∧
      successors.foldlM (merge join) middle = .ok flow' := by
  rw [List.foldlM_cons] at h
  cases hmerge : merge join flow successor with
  | error e => rw [hmerge] at h; exact nomatch h
  | ok middle => rw [hmerge] at h; exact ⟨middle, rfl, h⟩

theorem length_merges (h : successors.foldlM (merge join) flow = .ok flow') :
    flow'.states.length = flow.states.length := by
  induction successors generalizing flow with
  | nil => cases h; rfl
  | cons successor successors ih =>
    obtain ⟨middle, hmiddle, hrest⟩ := foldlM_merge_cons h
    rw [ih hrest, length_merge hmiddle]

/-- Everything a visit can do. -/
theorem visit_cases (h : visit transfer join flow = .ok flow') :
    (flow.worklist = [] ∧ flow' = flow) ∨
    (∃ node worklist, flow.worklist = node :: worklist ∧ flow.stateAt node = none ∧
      flow' = ⟨flow.states, worklist⟩) ∨
    (∃ node worklist state successors, flow.worklist = node :: worklist ∧
      flow.stateAt node = some state ∧ transfer node state = .ok successors ∧
      successors.foldlM (merge join) ⟨flow.states, worklist⟩ = .ok flow') := by
  unfold visit at h
  split at h
  case h_1 hempty =>
    cases h
    exact .inl ⟨hempty, rfl⟩
  case h_2 node worklist hcons =>
    split at h
    case h_1 hnone =>
      cases h
      exact .inr (.inl ⟨node, worklist, hcons, hnone, rfl⟩)
    case h_2 state hstate =>
      split at h
      case h_1 => exact nomatch h
      case h_2 successors htransfer =>
        exact .inr (.inr ⟨node, worklist, state, successors, hcons, hstate, htransfer, h⟩)

theorem length_visit (h : visit transfer join flow = .ok flow') :
    flow'.states.length = flow.states.length := by
  rcases visit_cases h with ⟨-, rfl⟩ | ⟨_, _, -, -, rfl⟩ | ⟨_, _, _, _, -, -, -, hmerges⟩
  · rfl
  · rfl
  · rw [length_merges hmerges]

/-! ## Conditions on merges -/

/-- Every merge of the successors into a state that is there meets `P`. -/
def MergesMeet (join : ℕ → σ → σ → Except ε (Option σ)) (P : σ → σ → Prop) :
    Flow σ → List (ℕ × σ) → Prop
  | _, [] => True
  | flow, successor :: successors =>
    (∀ existing, flow.stateAt successor.1 = some existing → P existing successor.2) ∧
      ∀ flow', merge join flow successor = .ok flow' → MergesMeet join P flow' successors

/-- Every merge of a visit meets `P`. -/
def VisitMeets (transfer : ℕ → σ → Except ε (List (ℕ × σ)))
    (join : ℕ → σ → σ → Except ε (Option σ)) (P : σ → σ → Prop) (flow : Flow σ) : Prop :=
  ∀ node worklist state successors, flow.worklist = node :: worklist →
    flow.stateAt node = some state → transfer node state = .ok successors →
      MergesMeet join P ⟨flow.states, worklist⟩ successors

instance decidableForallOk {α : Type} {Q : α → Prop} [∀ a, Decidable (Q a)] (x : Except ε α) :
    Decidable (∀ a, x = .ok a → Q a) :=
  match x with
  | .error _ => .isTrue nofun
  | .ok a => decidable_of_iff (Q a) ⟨fun h _ heq => Except.ok.inj heq ▸ h, fun h => h a rfl⟩

instance decidableExistsOk {α : Type} {Q : α → Prop} [∀ a, Decidable (Q a)] (x : Except ε α) :
    Decidable (∃ a, x = .ok a ∧ Q a) :=
  match x with
  | .error _ => .isFalse nofun
  | .ok a => decidable_of_iff (Q a) ⟨fun h => ⟨a, rfl, h⟩, fun ⟨_, heq, h⟩ =>
      Except.ok.inj heq ▸ h⟩

instance (priority := low) decidableForallSome {α : Type} {Q : α → Prop} [∀ a, Decidable (Q a)] (x : Option α) :
    Decidable (∀ a, x = some a → Q a) :=
  match x with
  | none => .isTrue nofun
  | some a => decidable_of_iff (Q a) ⟨fun h _ heq => Option.some.inj heq ▸ h, fun h => h a rfl⟩

instance decidableMergesMeet {P : σ → σ → Prop} [∀ a b, Decidable (P a b)] :
    ∀ (flow : Flow σ) (successors : List (ℕ × σ)), Decidable (MergesMeet join P flow successors)
  | _, [] => .isTrue trivial
  | flow, successor :: successors =>
    have : ∀ flow' : Flow σ, Decidable (MergesMeet join P flow' successors) := fun flow' =>
      decidableMergesMeet flow' successors
    inferInstanceAs (Decidable (_ ∧ _))

instance decidableVisitMeets {P : σ → σ → Prop} [∀ a b, Decidable (P a b)] (flow : Flow σ) :
    Decidable (VisitMeets transfer join P flow) :=
  match hcons : flow.worklist with
  | [] => .isTrue fun node worklist _ _ h => nomatch hcons.symm.trans h
  | node :: worklist =>
    decidable_of_iff (∀ state, flow.stateAt node = some state → ∀ successors,
        transfer node state = .ok successors → MergesMeet join P ⟨flow.states, worklist⟩ successors)
      ⟨fun h node' worklist' state successors heq hstate => by
        cases hcons.symm.trans heq
        exact h state hstate successors, fun h state hstate successors =>
        h node worklist state successors hcons hstate⟩

/-- Every state is in `I`. -/
def Flow.Meets (flow : Flow σ) (I : σ → Prop) : Prop :=
  ∀ node state, flow.stateAt node = some state → I state

theorem Flow.Meets.set {I : σ → Prop} {worklist : List ℕ} (h : flow.Meets I) (hstate : I state) :
    Flow.Meets ⟨flow.states.set node (some state), worklist⟩ I := by
  intro other existing hexisting
  by_cases hother : other = node
  · subst hother
    by_cases hlt : other < flow.states.length
    · rw [Flow.stateAt_set_self hlt] at hexisting
      cases hexisting
      exact hstate
    · rw [Flow.stateAt, List.getD_eq_getElem?_getD,
        List.getElem?_eq_none (by simpa using hlt)] at hexisting
      exact nomatch hexisting
  · rw [Flow.stateAt_set_ne hother] at hexisting
    exact h other existing hexisting

/-! ## Invariants -/

section Invariants

variable {I : σ → Prop}

theorem meets_merges (h : successors.foldlM (merge join) flow = .ok flow') (hflow : flow.Meets I)
    (hsuccessors : ∀ t ∈ successors, I t.2)
    (hjoin : ∀ {target existing incoming joined}, I existing → I incoming →
      join target existing incoming = .ok (some joined) → I joined) : flow'.Meets I := by
  induction successors generalizing flow with
  | nil =>
    cases h
    exact hflow
  | cons successor successors ih =>
    obtain ⟨middle, hmiddle, hrest⟩ := foldlM_merge_cons h
    have hincoming := hsuccessors successor List.mem_cons_self
    have hnext : middle.Meets I := by
      rcases merge_cases hmiddle with ⟨-, rfl⟩ | ⟨existing, joined, hexisting, hjoined, rfl⟩ |
        ⟨_, -, -, rfl⟩
      · exact hflow.set hincoming
      · exact hflow.set (hjoin (hflow _ _ hexisting) hincoming hjoined)
      · exact hflow
    exact ih hrest hnext fun t ht => hsuccessors t (List.mem_cons_of_mem _ ht)

/-- The invariant rule: what transfers and joins keep holds of every state reached. -/
theorem meets_visits {transfer : ℕ → ℕ → σ → Except ε (List (ℕ × σ))} {n : ℕ}
    (h : visits transfer join flow n = .ok flow') (hinitial : flow.Meets I)
    (htransfer : ∀ {n node state successors}, node < flow.states.length → I state →
      transfer n node state = .ok successors → ∀ t ∈ successors, I t.2)
    (hjoin : ∀ {target existing incoming joined}, I existing → I incoming →
      join target existing incoming = .ok (some joined) → I joined) :
    flow'.Meets I ∧ flow'.states.length = flow.states.length := by
  -- by induction on the number of visits
  induction n generalizing flow' with
  | zero =>
    cases h
    exact ⟨hinitial, rfl⟩
  | succ n ih =>
    have hlast : visits transfer join flow n >>= visit (transfer n) join = .ok flow' := h
    cases hn : visits transfer join flow n with
    | error e => rw [hn] at hlast; exact nomatch hlast
    | ok earlier =>
      rw [hn] at hlast
      obtain ⟨hmeets, hlength⟩ := ih hn
      have hvisit : visit (transfer n) join earlier = .ok flow' := hlast
      refine ⟨?_, (length_visit hvisit).trans hlength⟩
      rcases visit_cases hvisit with ⟨-, rfl⟩ | ⟨_, _, -, -, rfl⟩ |
        ⟨node, worklist, state, successors, -, hstate, hsuccessors, hmerges⟩
      · exact hmeets
      · exact hmeets
      · have hlt := Flow.lt_length_of_stateAt hstate
        exact meets_merges hmerges hmeets
          (htransfer (hlength ▸ hlt) (hmeets _ _ hstate) hsuccessors) hjoin

end Invariants

/-! ## Termination -/

section Termination

/-- How many nodes have no state yet. -/
def Flow.unreached (flow : Flow σ) : ℕ := flow.states.countP Option.isNone

/-- How far the states can still rise. -/
def Flow.room (rank : σ → ℕ) (flow : Flow σ) : ℕ :=
  (flow.states.map fun state => state.elim 0 rank).sum

/-- A state below another: `coarse` is less, or it is the same and `fine` is less. -/
def Lowers (coarse fine : σ → ℕ) (lower upper : σ) : Prop :=
  coarse lower < coarse upper ∨ coarse lower = coarse upper ∧ fine lower < fine upper

/-- The measure of a flow: a merge lowers it, and so does taking a node off the worklist. -/
def Flow.measure (coarse fine : σ → ℕ) (flow : Flow σ) : ℕ ×ₗ ℕ ×ₗ ℕ ×ₗ ℕ :=
  toLex (flow.unreached, toLex (flow.room coarse, toLex (flow.room fine, flow.worklist.length)))

/-- The states of a flow that a merge changed are below those it had. -/
def Flow.Drops (coarse fine : σ → ℕ) (flow' flow : Flow σ) : Prop :=
  flow'.unreached < flow.unreached ∨ flow'.unreached = flow.unreached ∧
    (flow'.room coarse < flow.room coarse ∨
      flow'.room coarse = flow.room coarse ∧ flow'.room fine < flow.room fine)

variable {rank coarse fine : σ → ℕ} {P : σ → σ → Prop} {I : σ → Prop}

theorem Flow.Drops.trans {flow₁ flow₂ flow₃ : Flow σ} (h : flow₁.Drops coarse fine flow₂)
    (h' : flow₂.Drops coarse fine flow₃) : flow₁.Drops coarse fine flow₃ := by
  unfold Drops at h h' ⊢
  omega

theorem Flow.unreached_set_new {joined : σ} {worklist : List ℕ} (h : node < flow.states.length)
    (hnone : flow.stateAt node = none) :
    Flow.unreached ⟨flow.states.set node (some joined), worklist⟩ < flow.unreached := by
  obtain ⟨states, _⟩ := flow
  simp only [unreached, stateAt] at h hnone ⊢
  induction states generalizing node with
  | nil => exact absurd h (Nat.not_lt_zero _)
  | cons head tail ih =>
    cases node with
    | zero =>
      simp only [List.getD_cons_zero] at hnone
      subst hnone
      simp
    | succ node =>
      have htail := ih (Nat.lt_of_succ_lt_succ h) hnone
      simp only [List.set_cons_succ, List.countP_cons]
      omega

theorem Flow.unreached_set_old {joined existing : σ} {worklist : List ℕ}
    (h : flow.stateAt node = some existing) :
    Flow.unreached ⟨flow.states.set node (some joined), worklist⟩ = flow.unreached := by
  obtain ⟨states, _⟩ := flow
  simp only [unreached, stateAt] at h ⊢
  induction states generalizing node with
  | nil => simp at h
  | cons head tail ih =>
    cases node with
    | zero =>
      simp only [List.getD_cons_zero] at h
      subst h
      simp
    | succ node =>
      have htail := ih h
      simp only [List.set_cons_succ, List.countP_cons]
      omega

theorem Flow.room_set {joined existing : σ} {worklist : List ℕ}
    (h : flow.stateAt node = some existing) :
    Flow.room rank ⟨flow.states.set node (some joined), worklist⟩ + rank existing =
      flow.room rank + rank joined := by
  obtain ⟨states, _⟩ := flow
  simp only [room, stateAt] at h ⊢
  induction states generalizing node with
  | nil => simp at h
  | cons head tail ih =>
    cases node with
    | zero =>
      simp only [List.getD_cons_zero] at h
      subst h
      simp only [List.set_cons_zero, List.map_cons, List.sum_cons, Option.elim_some]
      omega
    | succ node =>
      simp only [List.getD_cons_succ] at h
      have htail := ih h
      simp only [List.set_cons_succ, List.map_cons, List.sum_cons]
      omega

/-- What a merge does to a flow: nothing, or the states drop. -/
theorem drops_merge (h : merge join flow successor = .ok flow')
    (hlt : successor.1 < flow.states.length)
    (hlowers : ∀ existing joined, flow.stateAt successor.1 = some existing →
      join successor.1 existing successor.2 = .ok (some joined) →
        Lowers coarse fine joined existing) :
    flow' = flow ∨ flow'.Drops coarse fine flow := by
  rcases merge_cases h with ⟨hnone, rfl⟩ | ⟨existing, joined, hexisting, hjoin, rfl⟩ | ⟨_, -, -, rfl⟩
  · exact .inr (.inl (Flow.unreached_set_new hlt hnone))
  · have hroom (rank : σ → ℕ) : Flow.room rank ⟨flow.states.set successor.1 (some joined),
        flow.worklist ++ [successor.1]⟩ + rank existing = flow.room rank + rank joined :=
      Flow.room_set hexisting
    have hcoarse := hroom coarse
    have hfine := hroom fine
    right
    refine .inr ⟨Flow.unreached_set_old hexisting, ?_⟩
    rcases hlowers existing joined hexisting hjoin with hlt | ⟨heq, hlt⟩ <;> omega
  · exact .inl rfl

/-- Merging successors keeps an invariant, and nothing changes or the states drop. -/
theorem drops_merges (h : successors.foldlM (merge join) flow = .ok flow')
    (hmeets : MergesMeet join P flow successors) (hflow : flow.Meets I)
    (hsuccessors : ∀ t ∈ successors, t.1 < flow.states.length ∧ I t.2)
    (hjoin : ∀ {target existing incoming joined}, I existing → I incoming → P existing incoming →
      join target existing incoming = .ok (some joined) →
        I joined ∧ Lowers coarse fine joined existing) :
    flow'.Meets I ∧ (flow' = flow ∨ flow'.Drops coarse fine flow) := by
  induction successors generalizing flow with
  | nil =>
    cases h
    exact ⟨hflow, .inl rfl⟩
  | cons successor successors ih =>
    obtain ⟨middle, hmiddle, hrest⟩ := foldlM_merge_cons h
    obtain ⟨hlt, hincoming⟩ := hsuccessors successor List.mem_cons_self
    have hlength := length_merge hmiddle
    have hnext : middle.Meets I := by
      rcases merge_cases hmiddle with ⟨-, rfl⟩ | ⟨existing, joined, hexisting, hjoined, rfl⟩ |
        ⟨_, -, -, rfl⟩
      · exact hflow.set hincoming
      · exact hflow.set (hjoin (hflow _ _ hexisting) hincoming (hmeets.1 _ hexisting) hjoined).1
      · exact hflow
    obtain ⟨hfinal, hdrops⟩ := ih hrest (hmeets.2 _ hmiddle) hnext fun t ht =>
      hlength ▸ hsuccessors t (List.mem_cons_of_mem _ ht)
    refine ⟨hfinal, ?_⟩
    have hstep : middle = flow ∨ middle.Drops coarse fine flow :=
      drops_merge hmiddle hlt fun existing joined hexisting hjoined =>
        (hjoin (hflow _ _ hexisting) hincoming (hmeets.1 _ hexisting) hjoined).2
    rcases hstep with rfl | hstep
    · exact hdrops
    · rcases hdrops with rfl | hdrops
      · exact .inr hstep
      · exact .inr (hdrops.trans hstep)

/-- A visit of a nonempty worklist keeps an invariant and lowers the measure. -/
theorem measure_visit (h : visit transfer join flow = .ok flow') (hne : flow.worklist ≠ [])
    (hmeets : VisitMeets transfer join P flow) (hflow : flow.Meets I)
    (htransfer : ∀ {node state successors}, flow.stateAt node = some state → I state →
      transfer node state = .ok successors → ∀ t ∈ successors, t.1 < flow.states.length ∧ I t.2)
    (hjoin : ∀ {target existing incoming joined}, I existing → I incoming → P existing incoming →
      join target existing incoming = .ok (some joined) →
        I joined ∧ Lowers coarse fine joined existing) :
    flow'.Meets I ∧ flow'.measure coarse fine < flow.measure coarse fine := by
  have hsame {worklist : List ℕ} {node : ℕ} (hcons : flow.worklist = node :: worklist) :
      Flow.measure coarse fine ⟨flow.states, worklist⟩ < flow.measure coarse fine := by
    rw [Flow.measure, Flow.measure, Prod.Lex.toLex_lt_toLex, Prod.Lex.toLex_lt_toLex,
      Prod.Lex.toLex_lt_toLex, hcons]
    exact .inr ⟨rfl, .inr ⟨rfl, .inr ⟨rfl, Nat.lt_succ_self _⟩⟩⟩
  rcases visit_cases h with ⟨hempty, -⟩ | ⟨node, worklist, hcons, -, rfl⟩ |
    ⟨node, worklist, state, successors, hcons, hstate, hsuccessors, hmerges⟩
  · exact absurd hempty hne
  · exact ⟨hflow, hsame hcons⟩
  · obtain ⟨hmeets', hdrops⟩ := drops_merges hmerges
      (hmeets node worklist state successors hcons hstate hsuccessors) hflow
      (htransfer hstate (hflow _ _ hstate) hsuccessors) hjoin
    refine ⟨hmeets', ?_⟩
    rcases hdrops with rfl | hdrops
    · exact hsame hcons
    · rw [Flow.measure, Flow.measure, Prod.Lex.toLex_lt_toLex, Prod.Lex.toLex_lt_toLex,
        Prod.Lex.toLex_lt_toLex]
      rcases hdrops with hlt | ⟨heq, hlt | ⟨heq', hlt⟩⟩
      · exact .inl hlt
      · exact .inr ⟨heq, .inl hlt⟩
      · exact .inr ⟨heq, .inr ⟨heq', .inl hlt⟩⟩

/-- The termination rule: when every merge lowers the state it changes, the worklist runs empty
or a visit fails. -/
theorem visits_settle {transfer : ℕ → ℕ → σ → Except ε (List (ℕ × σ))}
    (hinitial : flow.Meets I)
    (hmeets : ∀ {n later}, visits transfer join flow n = .ok later →
      VisitMeets (transfer n) join P later)
    (htransfer : ∀ {n node state successors}, node < flow.states.length → I state →
      transfer n node state = .ok successors → ∀ t ∈ successors, t.1 < flow.states.length ∧ I t.2)
    (hjoin : ∀ {target existing incoming joined}, I existing → I incoming → P existing incoming →
      join target existing incoming = .ok (some joined) →
        I joined ∧ Lowers coarse fine joined existing) :
    ∃ n, ∀ last, visits transfer join flow n = .ok last → last.worklist = [] := by
  have hrun : ∀ measure : ℕ ×ₗ ℕ ×ₗ ℕ ×ₗ ℕ, ∀ n later,
      visits transfer join flow n = .ok later → later.states.length = flow.states.length →
        later.Meets I → later.measure coarse fine = measure →
          ∃ n, ∀ last, visits transfer join flow n = .ok last → last.worklist = [] := by
    -- by induction on the measure of the flow after `n` visits
    intro measure
    induction measure using WellFoundedLT.induction with
    | ind measure ih =>
      intro n later hlater hlength hI hmeasure
      by_cases hempty : later.worklist = []
      · refine ⟨n, fun last hlast => ?_⟩
        rw [hlater] at hlast
        cases hlast
        exact hempty
      · cases hvisit : visit (transfer n) join later with
        | error e =>
          refine ⟨n + 1, fun last hlast => ?_⟩
          have hfail : visits transfer join flow (n + 1) = .error e := by
            show visits transfer join flow n >>= visit (transfer n) join = .error e
            rw [hlater]
            exact hvisit
          rw [hfail] at hlast
          exact nomatch hlast
        | ok next =>
          have hnext : visits transfer join flow (n + 1) = .ok next := by
            show visits transfer join flow n >>= visit (transfer n) join = .ok next
            rw [hlater]
            exact hvisit
          have hstep : next.Meets I ∧ next.measure coarse fine < later.measure coarse fine :=
            measure_visit hvisit hempty (hmeets hlater) hI
              (fun hstate hI htransferred t ht => hlength ▸
                htransfer (hlength ▸ Flow.lt_length_of_stateAt hstate) hI htransferred t ht) hjoin
          exact ih (next.measure coarse fine) (hmeasure ▸ hstep.2) (n + 1) next hnext
            ((length_visit hvisit).trans hlength) hstep.1 rfl
  exact hrun (flow.measure coarse fine) 0 flow rfl rfl hinitial rfl

end Termination

/-! ## Cycles -/

section Cycles

variable {transfers : ℕ → ℕ → σ → Except ε (List (ℕ × σ))}

theorem visit_of_empty (h : flow.worklist = []) : visit transfer join flow = .ok flow := by
  rw [visit, h]

theorem visits_succ (n : ℕ) : visits transfers join flow (n + 1) =
    visits transfers join flow n >>= visit (transfers n) join := rfl

/-- Once the worklist is empty, nothing changes. -/
theorem visits_of_empty {n : ℕ} (h : visits transfers join flow n = .ok flow')
    (hempty : flow'.worklist = []) (k : ℕ) :
    visits transfers join flow (n + k) = .ok flow' := by
  induction k with
  | zero => exact h
  | succ k ih =>
    rw [← Nat.add_assoc, visits_succ, ih]
    exact visit_of_empty hempty

theorem exists_visits_of_le {m n : ℕ} (hle : m ≤ n)
    (h : visits transfers join flow n = .ok flow') :
    ∃ earlier, visits transfers join flow m = .ok earlier := by
  induction n, hle using Nat.le_induction generalizing flow' with
  | base => exact ⟨flow', h⟩
  | succ n hle ih =>
    rw [visits_succ] at h
    cases hn : visits transfers join flow n with
    | ok earlier => exact ih hn
    | error e => rw [hn] at h; exact nomatch h

/-- The visits that follow the first `m`, when every visit has the same transfer function. -/
theorem visits_add {m : ℕ} (h : visits (fun _ => transfer) join flow m = .ok flow') (n : ℕ) :
    visits (fun _ => transfer) join flow (m + n) = visits (fun _ => transfer) join flow' n := by
  induction n with
  | zero => exact h
  | succ n ih => rw [← Nat.add_assoc, visits_succ, visits_succ, ih]

/-- A condition on visits holds of them all when it holds until the worklist is empty. -/
theorem visitMeets_of_settled {P : σ → σ → Prop} {n : ℕ}
    (h : visits transfers join flow n = .ok flow') (hempty : flow'.worklist = [])
    (hbefore : ∀ m < n, ∀ later, visits transfers join flow m = .ok later →
      VisitMeets (transfers m) join P later) (m : ℕ) (later : Flow σ)
    (hlater : visits transfers join flow m = .ok later) :
    VisitMeets (transfers m) join P later := by
  by_cases hlt : m < n
  · exact hbefore m hlt later hlater
  · have hlast := visits_of_empty h hempty (m - n)
    rw [Nat.add_sub_cancel' (not_lt.mp hlt), hlater] at hlast
    cases hlast
    intro node worklist _ _ hcons
    rw [hempty] at hcons
    exact nomatch hcons

theorem length_visits {n : ℕ} (h : visits transfers join flow n = .ok flow') :
    flow'.states.length = flow.states.length := by
  induction n generalizing flow' with
  | zero => cases h; rfl
  | succ n ih =>
    rw [visits_succ] at h
    cases hn : visits transfers join flow n with
    | error e => rw [hn] at h; exact nomatch h
    | ok earlier =>
      rw [hn] at h
      rw [length_visit h, ih hn]

/-- Transfer functions that agree on the nodes of a flow visit it alike. -/
theorem visits_congr {transfers' : ℕ → ℕ → σ → Except ε (List (ℕ × σ))}
    (h : ∀ n node state, node < flow.states.length →
      transfers n node state = transfers' n node state) (n : ℕ) :
    visits transfers join flow n = visits transfers' join flow n := by
  induction n with
  | zero => rfl
  | succ n ih =>
    rw [visits_succ, visits_succ, ← ih]
    cases hn : visits transfers join flow n with
    | error e => rfl
    | ok earlier =>
      show visit _ join earlier = visit _ join earlier
      unfold visit
      cases earlier.worklist with
      | nil => rfl
      | cons node worklist =>
        dsimp only
        cases hstate : earlier.stateAt node with
        | none => rfl
        | some state =>
          have hlt := Flow.lt_length_of_stateAt hstate
          rw [length_visits hn] at hlt
          dsimp only
          rw [h n node state hlt]

/-- A flow that comes back with work to do never settles. -/
theorem visits_cycle {m period : ℕ} (h : visits (fun _ => transfer) join flow m = .ok flow')
    (hcycle : visits (fun _ => transfer) join flow' period = .ok flow') (hperiod : 0 < period)
    (hwork : flow'.worklist ≠ []) (n : ℕ) :
    ∃ later, visits (fun _ => transfer) join flow n = .ok later ∧ later.worklist ≠ [] := by
  have hback : ∀ k, visits (fun _ => transfer) join flow (m + k * period) = .ok flow' := by
    intro k
    induction k with
    | zero => simpa using h
    | succ k ih =>
      have hnext := visits_add ih period
      rw [hcycle] at hnext
      rw [Nat.succ_mul, ← Nat.add_assoc]
      exact hnext
  have hle : n ≤ m + n * period := by
    have hmul : n * 1 ≤ n * period := Nat.mul_le_mul_left n hperiod
    omega
  obtain ⟨later, hlater⟩ := exists_visits_of_le hle (hback n)
  refine ⟨later, hlater, fun hempty => hwork ?_⟩
  have hlast := visits_of_empty hlater hempty (m + n * period - n)
  rw [Nat.add_sub_cancel' hle, hback n] at hlast
  cases hlast
  exact hempty

end Cycles

end LanguageRuntime.Library.Worklist
