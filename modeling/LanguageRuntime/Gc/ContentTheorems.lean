import LanguageRuntime.Gc.ReplayTheorems

/-!
# Weak references, ephemerons, builders and canonical strings over their lives

A weak reference returns its target until that is lost and nil from then on, an ephemeron the value
that was stored last until its key is lost, and a builder the bytes appended since it was cleared.
Strings that are interned are the same object if they have the same bytes, and the roots and handles
hold what the mutator has put into them.
-/

namespace LanguageRuntime.Gc

open LanguageRuntime LanguageRuntime.Library

namespace Store

/-- What is left of a weakly held value. -/
def weakly (s : Store) : Value → Value
  | .object id => if s.Alive id.slot then .object id else .nil
  | value => value

/-- The value an event leaves in the ephemeron with the number `k`. -/
def latestValue (k : ℕ) (event : Event) (value : Value) : Value :=
  match event with
  | ⟨.call (.ephemeronSetValue id stored), some none⟩ => if id.slot = k then stored else value
  | _ => value

/-- The bytes an event leaves in the builder with the number `k`. -/
def written (s : Store) (k : ℕ) (event : Event) (bytes : List UInt8) : List UInt8 :=
  match event with
  | ⟨.call (.builderAppend id source), some none⟩ =>
    if id.slot = k then bytes ++ (s.bytes source).getD [] else bytes
  | ⟨.call (.builderClear id), some none⟩ => if id.slot = k then [] else bytes
  | _ => bytes

section Stored

variable {s s' : Store} {k capacity : ℕ} {event : Event} {key value target : Value}
  {bytes content : List UInt8} {valueIsRef : Bool} {id : ObjectId}

theorem stored_call {op : Operation} {p : Payload} (howner : op.owner = some id) :
    s.stored k ⟨.call op, some none⟩ p =
      if id.slot = k then (s.newFields op p).getD p else p := by
  simp only [stored, howner, Option.map_some, Option.some.injEq]

theorem stored_of_kind {p : Payload} (hp : ∀ s op, newFields s op p = none) : s.stored k event p = p := by
  unfold stored
  split
  · rw [hp, Option.getD_none, ite_self]
  · rfl

theorem stored_weakRef : s.stored k event (.weakRef target) = .weakRef target :=
  stored_of_kind fun _ op => by cases op <;> rfl

theorem stored_ephemeron (hkey : key.isNil = false) :
    s.stored k event (.ephemeron key value valueIsRef) =
      .ephemeron key (latestValue k event value) valueIsRef := by
  obtain ⟨action, outcome⟩ := event
  cases action with
  | setRoots cells => rfl
  | call op =>
    rcases outcome with _ | _ | id
    · cases op <;> rfl
    · cases op with
      | ephemeronSetValue id value' =>
        have hset : s.newFields (.ephemeronSetValue id value') (.ephemeron key value valueIsRef) =
            some (.ephemeron key value' valueIsRef) := if_neg (by rw [hkey]; exact Bool.false_ne_true)
        rw [stored_call rfl, hset, Option.getD_some]
        show _ = Payload.ephemeron key (if id.slot = k then value' else value) valueIsRef
        split <;> rfl
      | _ => simp [stored, latestValue, newFields]
    · cases op <;> rfl

theorem stored_builder : s.stored k event (.builder capacity bytes) =
    .builder capacity (s.written k event bytes) := by
  obtain ⟨action, outcome⟩ := event
  cases action with
  | setRoots cells => rfl
  | call op =>
    rcases outcome with _ | _ | id
    · cases op <;> rfl
    · cases op with
      | builderAppend id source =>
        rw [stored_call rfl]
        show (if id.slot = k then ((s.bytes source).bind fun appended =>
            some (Payload.builder capacity (bytes ++ appended))).getD _ else _) =
          Payload.builder capacity (if id.slot = k then bytes ++ (s.bytes source).getD [] else bytes)
        cases s.bytes source with
        | none => simp
        | some appended => split <;> rfl
      | builderClear id =>
        rw [stored_call rfl]
        show _ = Payload.builder capacity (if id.slot = k then [] else bytes)
        split <;> rfl
      | _ => simp [stored, written, newFields]
    · cases op <;> rfl

/-! ### What a collection leaves -/

theorem forward_weakRef : (Payload.weakRef target).forward s.keep = .weakRef (s.weakly target) := by
  cases target with
  | object id =>
    show Payload.weakRef ((s.keep id).elim .nil .object) =
      .weakRef (if s.Alive id.slot then .object id else .nil)
    unfold keep
    split <;> rfl
  | _ => rfl

theorem forward_ephemeron_of_dead (hdead : ¬s.Alive id.slot) :
    (Payload.ephemeron (.object id) value valueIsRef).forward s.keep =
      .ephemeron .nil .nil valueIsRef := by
  have hnone : s.keep id = none := if_neg hdead
  simp only [Payload.forward, Payload.mapReferenceFields, Payload.forwardWeakTarget,
    Payload.forwardEphemeron, hnone]

/-- The string made from a builder has its bytes. -/
theorem Step.builderToString {j : ℕ} (hstep : s.Step event s')
    (hevent : event = ⟨.call (.builderToString (.object (numbered k))), some (some (numbered j))⟩)
    (hp : s.objects k = some (.builder capacity bytes)) : s'.objects j = some (.str bytes) := by
  obtain ⟨j', hj, hreturned⟩ := hstep.returned hevent
  cases numbered_inj.mp hj
  rcases hreturned with ⟨s₁, p, hbefore, hnew, hafter, hresult⟩ | ⟨_, _, heq, -⟩
  · rw [newPayload] at hnew
    split at hnew
    · next capacity' bytes' hp₁ =>
      obtain ⟨q, hq, -, heq⟩ := hbefore.kept k _ hp₁
      cases hp.symm.trans hq
      cases heq
      cases hnew
      exact hafter.objects_string (if_pos rfl) hresult
    · cases hnew
  · cases heq

/-! ### Canonical strings -/

/-- A canonical string stays canonical. -/
theorem Step.keepsInterned (hs : s.Sound) (hstep : s.Step event s') (hk : s.interned k)
    (halive : s'.Alive k) : s'.interned k := by
  obtain ⟨content, hcontent⟩ := hs.strings k hk
  have hbelow := hs.below k (alive_of_objects hcontent)
  cases hstep with
  | setRoots _ => exact hk
  | allocates hbefore _ hfresh _ hafter _ =>
    have hnext := hbefore.next
    have hold := (alive_allocated.mp (hafter.alive halive)).resolve_left (by omega)
    exact (hafter.interned k).mpr ⟨(hbefore.interned k).mpr ⟨hk, hold⟩, halive⟩
  | interned hbefore _ _ _ => exact (hbefore.interned k).mpr ⟨hk, halive⟩
  | interns hbefore _ _ hfresh hafter _ =>
    have hnext := hbefore.next
    have hold := (alive_allocated.mp (hafter.alive halive)).resolve_left (by omega)
    exact (hafter.interned k).mpr ⟨.inr ((hbefore.interned k).mpr ⟨hk, hold⟩), halive⟩
  | stores _ hbefore hp _ _ hafter =>
    have hold := (alive_updated.mp (hafter.alive halive)).elim
      (fun heq => heq ▸ alive_of_objects hp) (fun hold => hold)
    exact (hafter.interned k).mpr ⟨(hbefore.interned k).mpr ⟨hk, hold⟩, halive⟩
  | holds _ _ => exact hk
  | rests _ _ _ hcollects => exact (hcollects.interned k).mpr ⟨hk, halive⟩
  | throws hcollects => exact (hcollects.interned k).mpr ⟨hk, halive⟩

/-- A canonical string that is left is canonical and has its bytes. -/
theorem Runs.keepsInterned {events : List Event} (hs : s.Sound) (hruns : s.Runs events s')
    (hk : s.interned k) (halive : s'.Alive k) :
    s'.interned k ∧ s'.objects k = s.objects k := by
  induction hruns with
  | nil s => exact ⟨hk, rfl⟩
  | cons hstep hruns ih =>
    obtain ⟨content, hcontent⟩ := hs.strings k hk
    have hbelow := hs.below k (alive_of_objects hcontent)
    have hmid := hruns.alive (hbelow.trans_le hstep.next_le) halive
    have hk₁ := hstep.keepsInterned hs hk hmid
    obtain ⟨hk', heq⟩ := ih (hstep.sound hs) hk₁ halive
    obtain ⟨content₁, hcontent₁⟩ := (hstep.sound hs).strings k hk₁
    refine ⟨hk', heq.trans ?_⟩
    rw [hcontent₁, hstep.objects_string hs hbelow hcontent₁]

/-- What is interned is a canonical string with the bytes of its source. -/
theorem Step.internString {source : Value} {j : ℕ} (hstep : s.Step event s')
    (hevent : event = ⟨.call (.internString source), some (some (numbered j))⟩) :
    ∃ content, s.bytes source = some content ∧ s'.objects j = some (.str content) ∧
      s'.interned j := by
  obtain ⟨j', hj, hreturned⟩ := hstep.returned hevent
  cases numbered_inj.mp hj
  rcases hreturned with ⟨s₁, p, -, hnew, -⟩ | ⟨_, content, heq, hrest⟩
  · cases hnew
  · cases heq
    exact ⟨content, hrest⟩

/-! ### Roots and handles -/

/-- The roots after an event. -/
def rootsAfter (event : Event) (roots : List Value) : List Value :=
  match event with
  | ⟨.setRoots cells, _⟩ => cells
  | _ => roots

/-- The handles after an event. -/
def handlesAfter (s : Store) (event : Event) (handles : List HandleRoot) : List HandleRoot :=
  match event with
  | ⟨.call op, some none⟩ => ({ s with handles := handles }.newHandles op).getD handles
  | _ => handles

theorem Step.held (hstep : s.Step event s') :
    s'.roots = rootsAfter event s.roots ∧ s'.handles = s.handlesAfter event s.handles := by
  cases hstep with
  | setRoots _ => exact ⟨rfl, rfl⟩
  | allocates hbefore _ _ _ hafter _ =>
    exact ⟨hafter.roots.trans hbefore.roots, hafter.handles.trans hbefore.handles⟩
  | interned hbefore _ _ _ => exact ⟨hbefore.roots, hbefore.handles⟩
  | interns hbefore _ _ _ hafter _ =>
    exact ⟨hafter.roots.trans hbefore.roots, hafter.handles.trans hbefore.handles⟩
  | @stores op owner _ _ _ _ howner hbefore _ _ _ hafter =>
    have hnone : s.newHandles op = none := by cases op <;> first | rfl | cases howner
    refine ⟨hafter.roots.trans hbefore.roots, (hafter.handles.trans hbefore.handles).trans ?_⟩
    exact (congrArg (fun found : Option _ => found.getD s.handles) hnone).symm
  | @holds op handles hhandles _ =>
    exact ⟨rfl, (congrArg (fun found : Option _ => found.getD s.handles) hhandles).symm⟩
  | @rests op _ _ _ hhandles hcollects =>
    refine ⟨hcollects.roots, hcollects.handles.trans ?_⟩
    exact (congrArg (fun found : Option _ => found.getD s.handles) hhandles).symm
  | throws hcollects => exact ⟨hcollects.roots, hcollects.handles⟩

end Stored

end Store

namespace Heap

section Content

variable {h : Heap} {id : ObjectId} {k capacity : ℕ} {key value target : Value} {bytes : List UInt8}
  {valueIsRef : Bool} {actions : List Action}

theorem replay_weakRef : h.replay k (.weakRef target) actions = .weakRef target :=
  foldEvents_hom (h := h) (f := fun _ _ (_ : Unit) => ()) (fun _ => Payload.weakRef target)
    (fun _ _ _ => Store.stored_weakRef) ()

/-- The value stored last into the ephemeron with the number `k`. -/
def latestValue (h : Heap) (k : ℕ) (value : Value) (actions : List Action) : Value :=
  h.foldEvents (fun _ event => Store.latestValue k event) value actions

theorem replay_ephemeron (hkey : key.isNil = false) :
    h.replay k (.ephemeron key value valueIsRef) actions =
      .ephemeron key (h.latestValue k value actions) valueIsRef :=
  foldEvents_hom (h := h) (fun value => Payload.ephemeron key value valueIsRef)
    (fun _ _ _ => Store.stored_ephemeron hkey) value

/-- The bytes appended to the builder with the number `k` since it was cleared. -/
def written (h : Heap) (k : ℕ) (bytes : List UInt8) (actions : List Action) : List UInt8 :=
  h.foldEvents (fun s event => s.written k event) bytes actions

theorem replay_builder : h.replay k (.builder capacity bytes) actions =
    .builder capacity (h.written k bytes actions) :=
  foldEvents_hom (h := h) (Payload.builder capacity) (fun _ _ _ => Store.stored_builder) bytes

/-- A weak reference returns its target while the store has it, and nil from the time on that it
does not. -/
theorem Reachable.weakGet (hr : h.Reachable)
    (hregular : Meets (fun h action => action.after h) Regular h actions)
    (hp : h.store.objects k = some (.weakRef target)) (hid : (h.run actions).number id = some (numbered k)) :
    (h.run actions).observed ((Load.weakGet id).run (h.run actions)) =
        some (.value ((h.run actions).store.weakly target)) ∧
      ∀ later id', Meets (fun h action => action.after h) Regular (h.run actions) later →
        ((h.run actions).run later).number id' = some (numbered k) →
        (h.run actions).store.weakly target = .nil →
        ((h.run actions).run later).observed ((Load.weakGet id').run ((h.run actions).run later)) =
          some (.value .nil) := by
  have hr' := hr.run hregular
  have hp' := hr.replayed hregular hp hid
  rw [replay_weakRef, Store.forward_weakRef] at hp'
  refine ⟨hr'.stands.load_of_number (l := .weakGet id) hid hp' nofun, fun later id' hlater hid' hnil => ?_⟩
  have hp'' := hr'.replayed hlater hp' hid'
  rw [replay_weakRef, Store.forward_weakRef, hnil] at hp''
  exact (hr'.run hlater).stands.load_of_number (l := .weakGet id') hid' hp'' nofun

/-- A weak reference to a pair that nothing else refers to. -/
theorem reachable_weakGet_nil :
    let h := (Heap.empty .quiet).run [.call (.allocatePair .nil .nil), .setRoots [.object ⟨0, 1⟩],
      .call (.allocateWeak (.object ⟨0, 1⟩)), .setRoots [.object ⟨1, 1⟩]]
    let h' := h.run [.call .collect]
    (h'.run [.call .collect]).observed ((Load.weakGet ⟨0, 2⟩).run (h'.run [.call .collect])) =
      some (.value .nil) := by
  intro h h'
  have hreachable : h.Reachable := reachable_of_called .quiet (by decide +kernel)
  have hp : h.store.objects 1 = some (.weakRef (.object (numbered 0))) := by decide +kernel
  have hid : (h.run [.call .collect]).number ⟨0, 2⟩ = some (numbered 1) := by decide +kernel
  exact (hreachable.weakGet (regular_of_called (by decide +kernel)) hp hid).2 [.call .collect] ⟨0, 2⟩
    (regular_of_called (by decide +kernel)) (by decide +kernel) (by decide +kernel)

/-- While its key is left, an ephemeron returns the key and the value that was stored last, and nil
for both when the key is lost. -/
theorem Reachable.ephemeron (hr : h.Reachable)
    (hregular : Meets (fun h action => action.after h) Regular h actions) {t : ObjectId}
    (hp : h.store.objects k = some (.ephemeron (.object t) value valueIsRef))
    (hid : (h.run actions).number id = some (numbered k)) :
    (h.run actions).observed ((Load.ephemeronKey id).run (h.run actions)) =
        some (.value ((h.run actions).store.weakly (.object t))) ∧
      (h.run actions).observed ((Load.ephemeronValue id).run (h.run actions)) =
        some (.value (if (h.run actions).store.Alive t.slot then h.latestValue k value actions
          else .nil)) := by
  have hs' := (hr.run hregular).stands
  have hp' := hr.replayed hregular hp hid
  rw [replay_ephemeron rfl] at hp'
  have hkey := fun q hq => hs'.load_of_number (l := .ephemeronKey id) (p := q) hid hq nofun
  have hvalue := fun q hq => hs'.load_of_number (l := .ephemeronValue id) (p := q) hid hq nofun
  rw [Store.weakly]
  by_cases halive : (h.run actions).store.Alive t.slot
  · rw [Store.forward_keep_ephemeron fun id heq => by cases heq; exact halive] at hp'
    rw [if_pos halive, if_pos halive]
    exact ⟨hkey _ hp', hvalue _ hp'⟩
  · rw [Store.forward_ephemeron_of_dead halive] at hp'
    rw [if_neg halive, if_neg halive]
    exact ⟨hkey _ hp', hvalue _ hp'⟩

/-- A value that is stored before a collection, with a key that the roots hold. -/
theorem reachable_ephemeron_stored :
    let h := (Heap.empty .quiet).run [.call (.allocatePair .nil .nil), .setRoots [.object ⟨0, 1⟩],
      .call (.allocateEphemeron (.object ⟨0, 1⟩) (.int64 1) false),
      .setRoots [.object ⟨0, 1⟩, .object ⟨1, 1⟩]]
    let h' := h.run [.call (.ephemeronSetValue ⟨1, 1⟩ (.int64 2)), .call .collect]
    h'.observed ((Load.ephemeronValue ⟨1, 1⟩).run h') = some (.value (.int64 2)) := by
  intro h h'
  have hreachable : h.Reachable := reachable_of_called .quiet (by decide +kernel)
  have hp : h.store.objects 1 = some (.ephemeron (.object (numbered 0)) (.int64 1) false) := by
    decide +kernel
  have hid : (h.run [.call (.ephemeronSetValue ⟨1, 1⟩ (.int64 2)), .call .collect]).number ⟨1, 1⟩ =
      some (numbered 1) := by decide +kernel
  exact (hreachable.ephemeron (regular_of_called (by decide +kernel)) hp hid).2.trans
    (by decide +kernel)

/-- A builder has the bytes that were appended since it was cleared, and so have the strings made
from it. -/
theorem Reachable.builder (hr : h.Reachable)
    (hregular : Meets (fun h action => action.after h) Regular h actions)
    (hp : h.store.objects k = some (.builder capacity bytes))
    (hid : (h.run actions).number id = some (numbered k)) :
    (h.run actions).observed ((Load.builderLength id).run (h.run actions)) =
        some (.count (h.written k bytes actions).length) ∧
      ∀ id' h', (h.run actions).Regular (.call (.builderToString (.object id))) →
        (Action.call (.builderToString (.object id))).step (h.run actions) = .ok (some id') h' →
        h'.checkedString id' = .ok (h.written k bytes actions) := by
  have hr' := hr.run hregular
  have hp' := hr.replayed hregular hp hid
  rw [replay_builder] at hp'
  refine ⟨hr'.stands.load_of_number (l := .builderLength id) hid hp' nofun, fun id' h' hreg hstep => ?_⟩
  obtain ⟨j, hj, hr'', htaken⟩ := hr'.returns hreg hstep
  have hstr : h'.store.objects j = some (.str (h.written k bytes actions)) := by
    refine htaken.builderToString ?_ hp'
    simp only [Action.mapIds, Operation.mapIds, Value.mapObject_object, numberId, hid, Option.getD_some]
  obtain ⟨slot, o, hresolve, -⟩ := number_eq_some.mp hj
  have hbytes := hr''.stands.bytes (valid_object.mpr ⟨slot, o, hresolve⟩)
  have hnumber : h'.numberId id' = numbered j := by rw [numberId, hj, Option.getD_some]
  rw [hnumber, Store.bytes_eq_some.mpr ⟨_, rfl, hstr⟩] at hbytes
  cases hchecked : h'.checkedString id' with
  | error e => rw [hchecked] at hbytes; cases hbytes
  | ok content => rw [hchecked] at hbytes; cases hbytes; rfl

/-- The length of a builder that a collection has moved. -/
theorem reachable_builder_appended :
    let h := (Heap.empty .quiet).run [.call .allocateBuilder, .setRoots [.object ⟨0, 1⟩],
      .call (.allocateString [97])]
    let h' := h.run [.call (.builderAppend ⟨0, 1⟩ (.object ⟨2, 1⟩)), .call .collect]
    h'.observed ((Load.builderLength ⟨0, 1⟩).run h') = some (.count 1) := by
  intro h h'
  have hreachable : h.Reachable := reachable_of_called .quiet (by decide +kernel)
  have hp : h.store.objects 0 = some (.builder 0 []) := by decide +kernel
  have hid : (h.run [.call (.builderAppend ⟨0, 1⟩ (.object ⟨2, 1⟩)), .call .collect]).number ⟨0, 1⟩ =
      some (numbered 0) := by decide +kernel
  exact (hreachable.builder (regular_of_called (by decide +kernel)) hp hid).1.trans (by decide +kernel)

/-! ### Canonical strings -/

/-- The roots and the handles hold what the mutator has put into them, whatever the collector has
moved, and the store has every object they hold. -/
theorem Reachable.held_run (hr : h.Reachable)
    (hregular : Meets (fun h action => action.after h) Regular h actions) :
    (h.run actions).store.roots =
        h.foldEvents (fun _ event => Store.rootsAfter event) h.store.roots actions ∧
      (h.run actions).store.handles =
        h.foldEvents (fun s event => s.handlesAfter event) h.store.handles actions ∧
      ∀ k, .object (numbered k) ∈ (h.run actions).store.held → (h.run actions).store.Alive k := by
  have hs := hr.stands
  refine ⟨?_, ?_, (hr.run hregular).stands.sound.rooted⟩
  · exact hs.foldEvents (P := fun s roots => s.roots = roots)
      (fun _ _ _ _ _ hstep heq => heq ▸ hstep.held.1) hregular rfl
  · exact hs.foldEvents (P := fun s handles => s.handles = handles)
      (fun _ _ _ _ _ hstep heq => heq ▸ hstep.held.2) hregular rfl

/-- Roots and a handle that a collection has rewritten. -/
theorem reachable_held_collect :
    let h := (Heap.empty .quiet).run [.call (.allocatePair .nil .nil), .call (.allocatePair .nil .nil)]
    let actions := [.setRoots [.object ⟨1, 1⟩], .call (.makeHandle 0 (.object ⟨1, 1⟩)), .call .collect]
    (h.run actions).store.roots =
        h.foldEvents (fun _ event => Store.rootsAfter event) h.store.roots actions := by
  intro h actions
  have hreachable : h.Reachable := reachable_of_called .quiet (by decide +kernel)
  exact (hreachable.held_run (regular_of_called (by decide +kernel))).1

end Content

end Heap

end LanguageRuntime.Gc
