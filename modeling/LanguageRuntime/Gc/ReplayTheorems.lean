import LanguageRuntime.Gc.ObservationTheorems

/-!
# Objects over their lives

What an object holds after any sequence of actions: what the stores into it have made of its
payload, one after the other, less the weak fields whose target is lost.
-/

namespace LanguageRuntime.Gc

open LanguageRuntime LanguageRuntime.Library

namespace Store

/-- What an event makes of the payload of the object with the number `k`. -/
def stored (s : Store) (k : ℕ) (event : Event) (p : Payload) : Payload :=
  match event with
  | ⟨.call op, some none⟩ =>
    if op.owner.map ObjectId.slot = some k then (s.newFields op p).getD p else p
  | _ => p

/-- If the store still has the object with the number `k`, then with the payload `p`, less the weak
fields whose target is lost. -/
structure MayHold (s : Store) (k : ℕ) (p : Payload) : Prop where
  left : ∀ p', s.objects k = some p' → p.Forwards s.keep ∧ p' = p.forward s.keep
  known : ∀ id, .object id ∈ p.allFields → id.slot < s.next

section Stored

variable {s s₁ s' : Store} {k : ℕ} {p p' : Payload} {event : Event} {events : List Event}
  {op : Operation} {value key : Value} {m : MapPayload} {content : List UInt8} {id : ObjectId}
  {valueIsRef : Bool}

/-! ### What a collection does to the payload it leaves -/

/-- What has bytes after a collection had them before. -/
theorem Collects.bytes_of_eq_some (hc : s.Collects s₁) (hbytes : s₁.bytes value = some content) :
    s.bytes value = some content := by
  obtain ⟨id, rfl, hid⟩ := bytes_eq_some.mp hbytes
  have hsame : s₁.bytes (.object id) = s.bytes (.object id) := by
    refine hc.bytes fun id' heq => ?_
    cases heq
    exact alive_of_objects hid
  rw [← hsame, hbytes]

/-- A map that a collection has left finds the keys it found before. -/
theorem Collects.setEntry_eq (hc : s.Collects s₁) (hm : s₁.objects k = some (.map m))
    (haccepts : s₁.accepts m key = true) :
    s.accepts m key = true ∧ s.setEntry m key value = s₁.setEntry m key value := by
  have hkey : m.keyIsRef = true → s₁.bytes key = s.bytes key := by
    intro href
    unfold accepts at haccepts
    rw [if_pos href] at haccepts
    obtain ⟨content, hcontent⟩ := Option.isSome_iff_exists.mp haccepts
    rw [hcontent, hc.bytes_of_eq_some hcontent]
  have hstored : m.keyIsRef = true → ∀ entry ∈ m.entries, s₁.bytes entry.key = s.bytes entry.key :=
    fun href entry hentry => hc.bytes fun id heq => hc.closed.alive_key hm hentry href heq
  refine ⟨accepts_congr hkey ▸ haccepts, ?_⟩
  unfold setEntry
  rw [findEntry_congr hstored hkey]

/-- The value of an ephemeron is lost with its key only. -/
theorem forward_keep_ephemeron (hkey : ∀ id, key = .object id → s.Alive id.slot) :
    (Payload.ephemeron key value valueIsRef).forward s.keep = .ephemeron key value valueIsRef := by
  have hgetD : (fun id => (s.keep id).getD id) = fun id => id := by
    funext id
    unfold keep
    split <;> rfl
  cases key with
  | object id =>
    simp only [Payload.forward, Payload.mapReferenceFields, Payload.forwardWeakTarget,
      Payload.forwardEphemeron, keep_of_alive (hkey id rfl), hgetD, Heap.mapObject_id, ite_self]
  | _ => rfl

/-- Nothing is stored into an object that a collection has cleared a field of. -/
theorem forward_keep_of_newFields (hforwards : p.Forwards s.keep)
    (hp' : s₁.newFields op (p.forward s.keep) = some p') : p.forward s.keep = p := by
  have hkind := newFields_kind hp'
  rw [Payload.kind_forward] at hkind
  cases p with
  | weakRef target => exact nomatch hkind.1
  | ephemeron key value valueIsRef =>
    refine forward_keep_ephemeron fun id heq => ?_
    subst heq
    by_contra hdead
    have hnone : s.keep id = none := if_neg hdead
    have hcleared : (Payload.ephemeron (.object id) value valueIsRef).forward s.keep =
        .ephemeron .nil .nil valueIsRef := by
      simp only [Payload.forward, Payload.mapReferenceFields, Payload.forwardWeakTarget,
        Payload.forwardEphemeron, hnone]
    rw [hcleared] at hp'
    cases op <;> cases hp'
  | _ => exact forward_keep_strong rfl hforwards

/-- A store after a collection is the store before it. -/
theorem Collects.newFields_eq (hc : s.Collects s₁) (hp : s₁.objects k = some p)
    (hp' : s₁.newFields op p = some p') : s.newFields op p = some p' := by
  cases op with
  | builderAppend id source =>
    cases p with
    | builder capacity bytes =>
      obtain ⟨appended, hbytes, heq⟩ := Option.bind_eq_some_iff.mp hp'
      exact Option.bind_eq_some_iff.mpr ⟨appended, hc.bytes_of_eq_some hbytes, heq⟩
    | _ => cases hp'
  | mapSet id key value =>
    cases p with
    | map m =>
      obtain ⟨haccepts, heq⟩ := Option.ite_none_right_eq_some.mp hp'
      obtain ⟨haccepts', hset⟩ := hc.setEntry_eq (s := s) hp haccepts
      exact Option.ite_none_right_eq_some.mpr ⟨haccepts', hset ▸ heq⟩
    | _ => cases hp'
  | _ => cases p <;> exact hp'

/-! ### One event -/

theorem stored_eq_self (htarget : ∀ id, event.target = some id → id.slot ≠ k) :
    s.stored k event p = p := by
  unfold stored
  split
  · next op =>
    rw [if_neg]
    intro howner
    obtain ⟨id, hid, hslot⟩ := Option.map_eq_some_iff.mp howner
    exact htarget id hid hslot
  · rfl

/-- Only a store that returns stores into an object. -/
theorem Step.stores_into (hstep : s.Step event s') (htarget : event.target = some id) :
    ∃ op p p', event = ⟨.call op, some none⟩ ∧ op.owner = some id ∧ s.objects id.slot = some p ∧
      s.newFields op p = some p' ∧ (∀ id', .object id' ∈ p'.allFields → s.Alive id'.slot) ∧
      ∀ q, s'.objects id.slot = some q → p'.Forwards s'.keep ∧ q = p'.forward s'.keep := by
  cases hstep with
  | @stores op owner s₁ _ p₁ p' howner hbefore hp₁ hp' hfields hafter =>
    cases howner.symm.trans htarget
    obtain ⟨p, hp, hforwards, heq⟩ := hbefore.kept _ p₁ hp₁
    -- the payload that is stored into has lost nothing
    have hsame : p₁ = p := heq.trans (forward_keep_of_newFields hforwards (heq ▸ hp'))
    refine ⟨op, p, p', rfl, howner, hp, hsame ▸ hbefore.newFields_eq hp₁ hp',
      fun id' hid' => hbefore.alive (hfields id' hid'), fun q hq => ?_⟩
    obtain ⟨q₀, hq₀, hF, rfl⟩ := hafter.kept _ q hq
    rw [objects_updated, if_pos rfl] at hq₀
    cases hq₀
    exact ⟨hF, rfl⟩
  | @holds op handles hhandles _ =>
    have howner : op.owner = some id := htarget
    have hhandles : s.newHandles op = some handles := hhandles
    cases op <;> first | (cases hhandles; done) | cases howner
  | rests _ howner _ _ => cases howner.symm.trans htarget
  | setRoots _ => cases htarget
  | allocates _ _ _ _ _ _ => cases htarget
  | interned _ _ _ _ => cases htarget
  | interns _ _ _ _ _ _ => cases htarget
  | throws _ => cases htarget

/-- An object keeps its kind. -/
theorem Step.kind_eq (hs : s.Sound) (hstep : s.Step event s') (hp : s.objects k = some p)
    (hp' : s'.objects k = some p') : p'.kind = p.kind := by
  by_cases htarget : ∃ id, event.target = some id ∧ id.slot = k
  · obtain ⟨id, hid, rfl⟩ := htarget
    obtain ⟨op, q, q', -, -, hq, hnew, -, hleft⟩ := hstep.stores_into hid
    cases hp.symm.trans hq
    rw [(hleft p' hp').2, Payload.kind_forward, (newFields_kind hnew).2]
  · have hk := hs.below k (alive_of_objects hp)
    obtain ⟨q, hq, -, heq⟩ := hstep.keepsObject hs hk (fun id hid heq => htarget ⟨id, hid, heq⟩) p' hp'
    cases hp.symm.trans hq
    rw [heq, Payload.kind_forward]

/-- A string that is left had its bytes before. -/
theorem Step.objects_string {bytes : List UInt8} (hs : s.Sound) (hstep : s.Step event s')
    (hk : k < s.next) (hp : s'.objects k = some (.str bytes)) : s.objects k = some (.str bytes) := by
  by_cases htarget : ∃ id, event.target = some id ∧ id.slot = k
  · obtain ⟨id, hid, rfl⟩ := htarget
    obtain ⟨op, p, p', -, -, -, hnew, -, hleft⟩ := hstep.stores_into hid
    obtain ⟨hfrozen, hkind⟩ := newFields_kind hnew
    have hstr : p'.kind = .str := by rw [← Payload.kind_forward s'.keep p', ← (hleft _ hp).2]; rfl
    rw [← hkind, hstr] at hfrozen
    cases hfrozen
  · obtain ⟨p, hp₀, -, heq⟩ := hstep.keepsObject hs hk (fun id hid heq => htarget ⟨id, hid, heq⟩) _ hp
    have hkind : p.kind = .str := by rw [← Payload.kind_forward s'.keep p, ← heq]; rfl
    cases p with
    | str bytes' => rw [hp₀, heq]; rfl
    | _ => exact nomatch hkind

/-- The object that an operation returns has been allocated, or is a canonical string. -/
theorem Step.returned (hstep : s.Step event s') (hevent : event = ⟨.call op, some (some id)⟩) :
    ∃ k, id = numbered k ∧
      ((∃ s₁ p, s.Collects s₁ ∧ s₁.newPayload op = some p ∧ (s₁.allocated k p).Collects s' ∧
          s'.Alive k) ∨
        ∃ source content, op = .internString source ∧ s.bytes source = some content ∧
          s'.objects k = some (.str content) ∧ s'.interned k) := by
  cases hstep with
  | @allocates _ s₁ _ k p hbefore hp _ _ hafter hresult =>
    cases hevent
    exact ⟨k, rfl, .inl ⟨s₁, p, hbefore, hp, hafter, hresult⟩⟩
  | @interned source _ k content hbefore hsource hk hcanonical =>
    cases hevent
    have hbytes := hbefore.bytes_of_eq_some hsource
    exact ⟨k, rfl, .inr ⟨source, content, rfl, hbytes, hk, hcanonical⟩⟩
  | @interns source s₁ _ k content hbefore hsource _ _ hafter hresult =>
    cases hevent
    have hbytes := hbefore.bytes_of_eq_some hsource
    have hborn : ((s₁.allocated k (.str content)).canonized k).objects k = some (.str content) :=
      if_pos rfl
    exact ⟨k, rfl, .inr ⟨source, content, rfl, hbytes, hafter.objects_string hborn hresult,
      (hafter.interned k).mpr ⟨.inl rfl, hresult⟩⟩⟩
  | _ => cases hevent

theorem Sound.mayHold (hs : s.Sound) (hp : s.objects k = some p) : s.MayHold k p where
  left p' hp' := by
    cases hp.symm.trans hp'
    exact ⟨forwards_keep_of_alive (hs.closed k p hp),
      (forward_keep_of_alive (hs.closed k p hp)).symm⟩
  known id hid := hs.below _ (hs.closed k p hp id hid)

theorem MayHold.step (hc : s.MayHold k p) (hs : s.Sound) (hstep : s.Step event s')
    (hk : k < s.next) : s'.MayHold k (s.stored k event p) := by
  by_cases htarget : ∃ id, event.target = some id ∧ id.slot = k
  · obtain ⟨id, hid, rfl⟩ := htarget
    obtain ⟨op, p₀, p₁, rfl, howner, hp₀, hnew, hfields, hleft⟩ := hstep.stores_into hid
    obtain ⟨hforwards, heq⟩ := hc.left p₀ hp₀
    have hsame : p₀ = p := heq.trans (forward_keep_of_newFields hforwards (heq ▸ hnew))
    have hstored : s.stored id.slot ⟨.call op, some none⟩ p = p₁ := by
      rw [hsame] at hnew
      simp [stored, howner, hnew]
    rw [hstored]
    exact ⟨hleft, fun id' hid' => (hs.below _ (hfields id' hid')).trans_le hstep.next_le⟩
  · have hother : ∀ id, event.target = some id → id.slot ≠ k := fun id hid heq =>
      htarget ⟨id, hid, heq⟩
    rw [stored_eq_self hother]
    refine ⟨fun p' hp' => ?_, fun id hid => (hc.known id hid).trans_le hstep.next_le⟩
    obtain ⟨p₀, hp₀, hG, rfl⟩ := hstep.keepsObject hs hk hother p' hp'
    obtain ⟨hF, rfl⟩ := hc.left p₀ hp₀
    obtain ⟨hforwards, heq⟩ := forward_keep_keep hF hG fun id hid halive =>
      hstep.alive (hc.known id hid) halive
    exact ⟨hforwards, heq⟩

end Stored

end Store

namespace Heap

/-! ### Runs -/

/-- Goes through a sequence of actions with what each event makes of a result, given the store it
meets. -/
def foldEvents {α : Type} (f : Store → Event → α → α) (h : Heap) (a : α) : List Action → α
  | [] => a
  | action :: actions =>
    (action.after h).foldEvents f (f h.store (action.event h) a) actions

/-- What the stores of a sequence of actions make of the payload of the object with the
number `k`. -/
def replay (h : Heap) (k : ℕ) (p : Payload) (actions : List Action) : Payload :=
  h.foldEvents (fun s event => s.stored k event) p actions

section Replay

variable {α β : Type} {h : Heap} {id : ObjectId} {k : ℕ} {p p' : Payload} {action : Action}
  {actions : List Action} {f : Store → Event → α → α} {g : Store → Event → β → β}

/-- A property of the store and the result that every event keeps. -/
theorem Stands.foldEvents {P : Store → α → Prop} {a : α}
    (hstep : ∀ s event s' a, s.Sound → s.Step event s' → P s a → P s' (f s event a))
    (hs : h.Stands) (hm : Meets (fun h action => action.after h) Regular h actions)
    (ha : P h.store a) : P (h.run actions).store (h.foldEvents f a actions) := by
  induction actions generalizing h a with
  | nil => exact ha
  | cons action actions ih =>
    obtain ⟨hevent, hs'⟩ := hs.step hm.1
    exact ih hs' hm.2 (hstep _ _ _ _ hs.sound hevent ha)

/-- Two results that every event keeps in step. -/
theorem foldEvents_hom (φ : α → β) (hstep : ∀ s event a, g s event (φ a) = φ (f s event a)) (a : α) :
    h.foldEvents g (φ a) actions = φ (h.foldEvents f a actions) := by
  induction actions generalizing h a with
  | nil => rfl
  | cons action actions ih =>
    show (action.after h).foldEvents g (g h.store (action.event h) (φ a)) actions = _
    rw [hstep]
    exact ih _

theorem Stands.replay (hs : h.Stands) (hm : Meets (fun h action => action.after h) Regular h actions)
    (hk : k < h.store.next) (hp : h.store.MayHold k p) :
    (h.run actions).store.MayHold k (h.replay k p actions) :=
  (hs.foldEvents (P := fun s p => k < s.next ∧ s.MayHold k p) (fun _ _ _ _ hs hstep hp =>
    ⟨hp.1.trans_le hstep.next_le, hp.2.step hs hstep hp.1⟩) hm ⟨hk, hp⟩).2

theorem Stands.replay_eq (hs : h.Stands)
    (hm : Meets (fun h action => action.after h) Regular h actions)
    (hp : h.store.objects k = some p) (hp' : (h.run actions).store.objects k = some p') :
    p' = (h.replay k p actions).forward (h.run actions).store.keep := by
  have hk := hs.sound.below k (Store.alive_of_objects hp)
  exact ((hs.replay hm hk (hs.sound.mayHold hp)).left p' hp').2

/-- An object that is left after any regular actions holds what the stores into it that returned
have made of its payload, in their order, less the weak fields whose target is lost. -/
theorem Reachable.run_replays (hr : h.Reachable)
    (hregular : Meets (fun h action => action.after h) Regular h actions)
    (hp : h.store.objects k = some p) (hp' : (h.run actions).store.objects k = some p') :
    p' = (h.replay k p actions).forward (h.run actions).store.keep :=
  hr.stands.replay_eq hregular hp hp'

theorem Reachable.replayed (hr : h.Reachable)
    (hregular : Meets (fun h action => action.after h) Regular h actions)
    (hp : h.store.objects k = some p) (hid : (h.run actions).number id = some (numbered k)) :
    (h.run actions).store.objects k =
      some ((h.replay k p actions).forward (h.run actions).store.keep) := by
  obtain ⟨p', hp'⟩ := (hr.run hregular).stands.exists_objects hid
  rw [hp', hr.stands.replay_eq hregular hp hp']

/-- A map whose entry is overwritten through another string, after a collection. -/
theorem reachable_replay_map :
    let h := (Heap.empty .quiet).run [.call (.allocatePair .nil .nil),
      .call (.allocateString [97]), .setRoots [.object ⟨1, 1⟩], .call (.allocateMap 0 true false),
      .setRoots [.object ⟨3, 1⟩, .nil]]
    let actions := [.call (.mapSet ⟨3, 1⟩ (.object ⟨1, 1⟩) (.bool true)), .call .collect,
      .call (.allocateString [97]), .call (.mapSet ⟨2, 1⟩ (.object ⟨6, 1⟩) (.bool false))]
    Payload.map ⟨0, true, false, [⟨.object (numbered 1), .bool false⟩], []⟩ =
      (h.replay 2 (.map ⟨0, true, false, [], []⟩) actions).forward (h.run actions).store.keep := by
  intro h actions
  have hreachable : h.Reachable := reachable_of_called .quiet (by decide +kernel)
  exact hreachable.run_replays (regular_of_called (by decide +kernel)) (by decide +kernel)
    (by decide +kernel)

end Replay

end Heap

end LanguageRuntime.Gc
