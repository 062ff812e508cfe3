import LanguageRuntime.Gc.IdentityTheorems
import LanguageRuntime.Gc.SimulationTheorems

/-!
# The store refines to the heap

Along every regular sequence of actions the heap goes through the steps of the store it stands for.
-/

namespace LanguageRuntime.Gc

open LanguageRuntime LanguageRuntime.Library

/-- The action with other names for the objects it passes. -/
def Action.mapIds (f : ObjectId → ObjectId) : Action → Action
  | setRoots cells => setRoots (cells.map (Value.mapObject f))
  | call op => call (op.mapIds f)

/-- What an action is to the store: the numbers of what it passes and of what it returns. -/
def Action.event (h : Heap) (action : Action) : Event where
  action := action.mapIds h.numberId
  outcome :=
    match action.step h with
    | .ok id h' => some (id.map h'.numberId)
    | .error _ _ => none

/-- What an action returns, if it returns. -/
def Action.returned (h : Heap) (action : Action) : Option (Option ObjectId) :=
  match action.step h with
  | .ok id _ => some id
  | .error _ _ => none

theorem Action.step_of_returned {h : Heap} {action : Action} {id : Option ObjectId}
    (hreturned : action.returned h = some id) : action.step h = .ok id (action.after h) := by
  unfold Action.returned at hreturned
  unfold Action.after
  split at hreturned
  · next hstep =>
    cases hreturned
    rw [hstep]
  · cases hreturned

namespace Heap

/-- The events of a sequence of actions. -/
def events (h : Heap) : List Action → List Event
  | [] => []
  | action :: actions => action.event h :: (action.after h).events actions

section Run

variable {h h' : Heap} {id : ObjectId} {action : Action} {actions : List Action}

theorem store_empty (config : StressConfig) : (Heap.empty config).store = .empty := by
  refine store_ext (fun _ _ => Iff.rfl) rfl rfl (fun k => ⟨?_, nofun⟩) rfl
  rintro ⟨entry, hentry, -⟩
  cases hentry

theorem empty_numbered (config : StressConfig) : (Heap.empty config).Numbered where
  unique _ _ _ _ ho := nomatch ho
  below _ _ ho := nomatch ho

theorem empty_stands (config : StressConfig) : (Heap.empty config).Stands where
  toWf := empty_wf config
  numbered := empty_numbered config
  sound := store_empty config ▸ Store.sound_empty

/-- Other roots are other roots of the store. -/
theorem store_setRoots (h : Heap) (cells : List Value) :
    store { h with rootCells := cells } = { h.store with roots := cells.map h.numberValue } := rfl

theorem Stands.setRoots {cells : List Value} (hs : h.Stands) (hcells : ∀ v ∈ cells, h.Valid v) :
    h.store.Step ⟨.setRoots (cells.map h.numberValue), some none⟩
      { h.store with roots := cells.map h.numberValue } := by
  refine .setRoots fun k hk => ?_
  obtain ⟨value, hvalue, hnumber⟩ := List.mem_map.mp hk
  exact alive_of_numberValue hs.numbered (hcells value hvalue) hnumber

/-- A regular action is a step of the store. -/
theorem Stands.step (hs : h.Stands) (hr : h.Regular action) :
    h.store.Step (action.event h) (action.after h).store ∧ (action.after h).Stands := by
  cases action with
  | setRoots cells =>
    have hstep := hs.setRoots hr.operands
    exact ⟨hstep, hs.toWf.setRoots hr.operands hs.handles,
      ⟨hs.numbered.unique, hs.numbered.below⟩, hstep.sound hs.sound⟩
  | call op =>
    have hrun := takes_run hs hr.operands hr.fresh
    have hin := hr.within
    have hspent : ¬((Action.call op).after h).Exhausted ∧ ¬((Action.call op).after h).Oversized :=
      ⟨hin.generations, fun hover => absurd hin.slots (Nat.not_le.mpr hover.slots)⟩
    unfold wp at hrun
    unfold Action.event Action.after at *
    cases hstep : (Action.call op).step h with
    | ok id h' =>
      have hop : op.run h = .ok id h' := hstep
      rw [hop] at hrun
      rw [hstep] at hspent
      rcases hrun with ⟨hs', htakes⟩ | hex | hover
      · exact ⟨htakes, hs'⟩
      · exact absurd hex hspent.1
      · exact absurd hover hspent.2
    | error e h' =>
      have hop : op.run h = .error e h' := hstep
      rw [hop] at hrun
      rw [hstep] at hspent
      rcases hrun with ⟨hw', he⟩ | hex | hover
      · exact ⟨.throws (he.collects hs.toWf hw' hs.numbered), he.stands hs hw'⟩
      · exact absurd hex hspent.1
      · exact absurd hover hspent.2

/-- A regular sequence of actions is a run of the store. -/
theorem Stands.runs (hs : h.Stands)
    (hm : Meets (fun h action => action.after h) Regular h actions) :
    h.store.Runs (h.events actions) (h.run actions).store ∧ (h.run actions).Stands := by
  induction actions generalizing h with
  | nil => exact ⟨.nil _, hs⟩
  | cons action actions ih =>
    obtain ⟨hstep, hs'⟩ := hs.step hm.1
    obtain ⟨hruns, hstands⟩ := ih hs' hm.2
    exact ⟨.cons hstep hruns, hstands⟩

/-- Regular actions on an empty heap have led to the heap. -/
def Reachable (h : Heap) : Prop :=
  ∃ config actions, Meets (fun h action => action.after h) Regular (Heap.empty config) actions ∧
    (Heap.empty config).run actions = h

theorem Reachable.stands (hr : h.Reachable) : h.Stands := by
  obtain ⟨config, actions, hregular, rfl⟩ := hr
  exact ((empty_stands config).runs hregular).2

theorem Reachable.run (hr : h.Reachable)
    (hregular : Meets (fun h action => action.after h) Regular h actions) :
    (h.run actions).Reachable := by
  obtain ⟨config, before, hbefore, rfl⟩ := hr
  exact ⟨config, before ++ actions, meets_append.mpr ⟨hbefore, hregular⟩, List.foldl_append⟩

/-- An identifier that an operation returns is the one of an object of the store. -/
theorem Reachable.returns (hr : h.Reachable) (hregular : h.Regular action)
    (hstep : action.step h = .ok (some id) h') :
    ∃ k, h'.number id = some (Gc.numbered k) ∧ h'.Reachable ∧
      h.store.Step ⟨action.mapIds h.numberId, some (some (Gc.numbered k))⟩ h'.store := by
  have hafter : action.after h = h' := by rw [Action.after, hstep]
  have hregulars : Meets (fun h action => action.after h) Regular h [action] := ⟨hregular, trivial⟩
  have hreachable : h'.Reachable := hafter ▸ hr.run hregulars
  have htaken := (hr.stands.step hregular).1
  rw [hafter, Action.event, hstep] at htaken
  have hresolves : ∃ found, h'.resolve id = .ok found := by
    obtain ⟨config, before, -, rfl⟩ := hr
    cases action with
    | setRoots cells => cases hstep
    | call op =>
      have hcurrent := run_returnsCurrent op _ (run_identitiesHold (empty_identitiesHold config) before)
      have hop : op.run ((Heap.empty config).run before) = .ok (some id) h' := hstep
      rw [wp, hop] at hcurrent
      exact hcurrent id rfl (hafter ▸ hregular.within.slots)
  obtain ⟨⟨slot, o⟩, hresolve⟩ := hresolves
  refine ⟨o.serial, number_of_resolve hresolve, hreachable, ?_⟩
  rw [← numberId_of_resolve hresolve]
  exact htaken

/-- Calls with the current identifiers are regular. -/
theorem regular_of_called (hcalled : Meets (fun h action => action.after h)
    (fun h action => h.CalledCurrent action ∧ (action.after h).Within) h actions) :
    Meets (fun h action => action.after h) Regular h actions :=
  hcalled.mono fun _ _ hstep => hstep.1.regular hstep.2

theorem reachable_of_called (config : StressConfig) (hcalled : Meets (fun h action => action.after h)
    (fun h action => h.CalledCurrent action ∧ (action.after h).Within) (Heap.empty config) actions) :
    ((Heap.empty config).run actions).Reachable :=
  ⟨config, actions, regular_of_called hcalled, rfl⟩

/-- From an empty heap, whatever regular actions the mutator takes and whatever the collector does
in between, the heap goes through a run of the store: operations that return have their effect on
it and no other, and those that throw have none. -/
theorem run_refines (config : StressConfig) (actions : List Action)
    (hregular : Meets (fun h action => action.after h) Regular (Heap.empty config) actions) :
    Store.empty.Runs ((Heap.empty config).events actions) ((Heap.empty config).run actions).store :=
  store_empty config ▸ ((empty_stands config).runs hregular).1

/-- A string in a map that a collection keeps, and a pair that it does not. -/
theorem run_refines_collect :
    let actions := [.call (.allocatePair .nil .nil), .call (.allocateString [97]),
      .setRoots [.object ⟨1, 1⟩], .call (.allocateMap 0 true true), .setRoots [.object ⟨3, 1⟩, .nil],
      .call (.mapSet ⟨3, 1⟩ (.object ⟨1, 1⟩) .nil), .call .collect]
    Store.empty.Runs ((Heap.empty .quiet).events actions) ((Heap.empty .quiet).run actions).store := by
  intro actions
  exact run_refines .quiet actions (regular_of_called (by decide +kernel))

end Run

end Heap

end LanguageRuntime.Gc
