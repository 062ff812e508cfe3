import LanguageRuntime.Gc.RunTheorems

/-!
# What the ephemeron fixpoint leaves live

From any marks and any worklist the fixpoint ends. It leaves live the least superset of what is
live at its start that is closed under ephemerons and under the strong references of the objects
it marks, whatever the order of the registry, if the worklist has been drained before.
-/

namespace LanguageRuntime.Gc

open LanguageRuntime LanguageRuntime.Library

namespace Heap

/-- The object at a slot counts as live. -/
def LiveAt (h : Heap) (kind : CollectionKind) (slot : ℕ) : Prop :=
  ∃ o, h.objectAt slot = some o ∧ o.countsAsLive kind = true

/-- The object at a slot counts as live or is on the worklist. -/
def StartsLive (h : Heap) (kind : CollectionKind) (worklist : List ObjectId) (slot : ℕ) : Prop :=
  h.LiveAt kind slot ∨ ∃ id ∈ worklist, ∃ o, h.resolve id = .ok (slot, o)

/-- A strong reference of an object that does not count as live yet. Marking follows no others:
an object that counts as live already is not scanned again. -/
def UnscannedReference (h : Heap) (kind : CollectionKind) (slot slot' : ℕ) : Prop :=
  ¬h.LiveAt kind slot ∧ h.StrongReference slot slot'

/-- The least superset of what is live to begin with that is closed under the strong references of
the objects it adds and under the values of live ephemerons with live keys. -/
def LeastClosure (h : Heap) (kind : CollectionKind) (worklist : List ObjectId) : ℕ → Prop :=
  Reach (h.StartsLive kind worklist) (h.UnscannedReference kind) h.EphemeronReference

section Closure

variable {h h' : Heap} {kind : CollectionKind} {worklist : List ObjectId} {slot : ℕ}
  {gate : ℕ → ℕ → ℕ → Prop}

/-- Where what is live to begin with refers only to what is live to begin with, the closure is
closed under all strong references. -/
theorem Traces.leastClosure_iff (ht : h.Traces kind worklist) :
    h.LeastClosure kind worklist slot ↔
      Reach (h.StartsLive kind worklist) h.StrongReference h.EphemeronReference slot := by
  constructor
  · intro hreach
    apply Reach.least hreach
    · exact fun _ => .init
    · exact fun _ _ hlive hedge => .edge hlive hedge.2
    · exact fun _ _ _ howner hkey hgate => .gate howner hkey hgate
  · intro hreach
    apply Reach.least hreach
    · exact fun _ => .init
    · intro a b ha hedge
      by_cases hlive : h.LiveAt kind a
      · obtain ⟨o, ho, hcounts⟩ := hlive
        obtain ⟨o₁, id, o', ho₁, hid, hr⟩ := hedge
        rw [ho] at ho₁
        cases ho₁
        rcases ht a o ho hcounts id hid b o' hr with hcounts' | hmem
        · exact .init (.inl ⟨o', objectAt_of_resolve hr, hcounts'⟩)
        · exact .init (.inr ⟨id, hmem, o', hr⟩)
      · exact .edge ha ⟨hlive, hedge⟩
    · exact fun _ _ _ howner hkey hgate => .gate howner hkey hgate

/-- The state that the fixpoint starts from. -/
theorem tracingFrom_start (kind : CollectionKind) (gate : ℕ → ℕ → ℕ → Prop)
    (hfields : ∀ slot o, h.objectAt slot = some o → ∀ value ∈ o.payload.referenceFields,
      h.Valid value)
    (hworklist : ∀ id ∈ worklist, h.Resolves id) :
    TracingFrom kind (h.LiveAt kind)
      (Reach (h.StartsLive kind worklist) (h.UnscannedReference kind) gate) (· ∈ worklist) h
      worklist where
  valid := hfields
  started slot o hstart ho := by
    obtain ⟨o', ho', hcounts⟩ := hstart
    rw [ho] at ho'
    cases ho'
    exact hcounts
  closed _ _ hlive hnew hedge := .edge hlive ⟨hnew, hedge⟩
  sound slot o ho hcounts := .init (.inl ⟨o, ho, hcounts⟩)
  grey id hid := by
    obtain ⟨slot, o, hr⟩ := hworklist id hid
    exact ⟨slot, o, hr, .init (.inr ⟨id, hid, o, hr⟩)⟩
  traces slot o ho hcounts hnew := absurd ⟨o, ho, hcounts⟩ hnew
  promised _ hid := .inl hid

/-- Once nothing is grey, what counts as live is the closure. -/
theorem TracingFrom.liveAt_iff (hm : h.MarksOnly h')
    (ht : TracingFrom kind (h.LiveAt kind)
      (Reach (h.StartsLive kind worklist) (h.UnscannedReference kind) gate) (· ∈ worklist) h' [])
    (hgate : ∀ owner key value, h'.LiveAt kind owner → h'.LiveAt kind key → gate owner key value →
      h'.LiveAt kind value) :
    h'.LiveAt kind slot ↔
      Reach (h.StartsLive kind worklist) (h.UnscannedReference kind) gate slot := by
  constructor
  · rintro ⟨o, ho, hcounts⟩
    exact ht.sound slot o ho hcounts
  · intro hreach
    apply Reach.least hreach
    · rintro slot (⟨o, ho, hcounts⟩ | ⟨id, hid, o, hr⟩)
      · obtain ⟨o', ho', -⟩ := hm.updates.objectAt ho
        exact ⟨o', ho', ht.started slot o' ⟨o, ho, hcounts⟩ ho'⟩
      · obtain ⟨slot', o', hr', hcounts⟩ := (ht.promised id hid).resolve_left List.not_mem_nil
        obtain ⟨o'', hr'', -⟩ := hm.resolve hr
        rw [hr'] at hr''
        cases hr''
        exact ⟨_, objectAt_of_resolve hr', hcounts⟩
    · rintro slot slot' ⟨o, ho, hcounts⟩ ⟨hnew, hedge⟩
      obtain ⟨o₁, id, o', ho₁, hid, hr⟩ := hm.same.strongReference.mpr hedge
      rw [ho] at ho₁
      cases ho₁
      exact ⟨o', objectAt_of_resolve hr, (ht.traces slot o ho hcounts hnew id hid slot' o'
        hr).resolve_right List.not_mem_nil⟩
    · exact hgate

/-- Closure under ephemerons, slot by slot. -/
theorem EphemeronClosed.liveAt {owner key value : ℕ} (hclosed : h.EphemeronClosed kind)
    (howner : h.LiveAt kind owner) (hkey : h.LiveAt kind key)
    (hedge : h.EphemeronReference owner key value) : h.LiveAt kind value := by
  obtain ⟨o, ho, hcounts⟩ := howner
  obtain ⟨k, hk, hkeyCounts⟩ := hkey
  obtain ⟨o₁, keyId, valueId, k', v', ho₁, hp, hkr, hvr⟩ := hedge
  rw [ho] at ho₁
  cases ho₁
  have hkobj := objectAt_of_resolve hkr
  rw [hk] at hkobj
  cases hkobj
  obtain ⟨slot', o', hr', hcounts'⟩ := hclosed owner o keyId valueId ho hcounts hp
    ⟨key, k, hkr, hkeyCounts⟩
  rw [hvr] at hr'
  cases hr'
  exact ⟨_, objectAt_of_resolve hvr, hcounts'⟩

/-! ## The fixpoint -/

theorem liveAt_closed (hm : h.MarksOnly h') (hclosed : h'.EphemeronClosed kind) :
    ∀ owner key value, h'.LiveAt kind owner → h'.LiveAt kind key →
      h.EphemeronReference owner key value → h'.LiveAt kind value :=
  fun _ _ _ howner hkey hedge =>
    hclosed.liveAt howner hkey (hm.same.ephemeronReference.mpr hedge)

/-- The fixpoint reaches the closure if its worklist has been drained, or if there is an ephemeron
to activate when it starts. -/
theorem wp_processEphemeronFixpoint_least (kind : CollectionKind)
    (hfields : ∀ slot o, h.objectAt slot = some o → ∀ value ∈ o.payload.referenceFields,
      h.Valid value)
    (he : h.EphemeronsSound) (hworklist : ∀ id ∈ worklist, h.Resolves id) :
    wp (processEphemeronFixpoint kind worklist) (fun _ h' => h.MarksOnly h' ∧
      FixpointRuns kind worklist h h' ∧
      ((∀ id ∈ worklist, h.NamesLive kind id) ∨ ¬h.EphemeronClosed kind →
        ∀ slot, h'.LiveAt kind slot ↔ h.LeastClosure kind worklist slot)) (fun _ _ => False) h := by
  have hstart := tracingFrom_start kind h.EphemeronReference hfields hworklist
  have hfixpoint := hstart.wp_processEphemeronFixpoint
    (fun _ _ _ howner hkey hedge => .gate howner hkey hedge) he
  refine wp_mono hfixpoint (fun _ h' hpost => ?_) fun _ _ he => he
  obtain ⟨hm, ht, hclosed, hruns⟩ := hpost
  refine ⟨hm, hruns, fun hready slot => ?_⟩
  have hclosed' : h'.EphemeronClosed kind := by
    rcases hclosed with hclosed | ⟨hbefore, id, hmem, hdead⟩
    · exact hclosed
    · rcases hready with hdrained | hdue
      · exact absurd (hdrained id hmem) hdead
      · exact absurd hbefore hdue
  exact ht.liveAt_iff hm (liveAt_closed hm hclosed')

/-- Where no ephemeron can be activated at the start, the fixpoint only drains its worklist. -/
theorem wp_processEphemeronFixpoint_single (kind : CollectionKind)
    (hfields : ∀ slot o, h.objectAt slot = some o → ∀ value ∈ o.payload.referenceFields,
      h.Valid value)
    (he : h.EphemeronsSound) (hworklist : ∀ id ∈ worklist, h.Resolves id)
    (hclosed : h.EphemeronClosed kind) :
    wp (processEphemeronFixpoint kind worklist) (fun _ h' => ∀ slot, h'.LiveAt kind slot ↔
      Reach (h.StartsLive kind worklist) (h.UnscannedReference kind) (fun _ _ _ => False) slot)
      (fun _ _ => False) h := by
  have hstart := tracingFrom_start kind (fun _ _ _ => False) hfields hworklist
  refine wp_mono (hstart.wp_processEphemeronFixpoint_closed he hclosed) (fun _ h' hpost => ?_)
    fun _ _ he => he
  obtain ⟨hm, ht, -⟩ := hpost
  exact fun slot => ht.liveAt_iff hm fun _ _ _ _ _ => False.elim

/-- What every collection runs: the worklist is drained, and then the fixpoint reaches the closure
of any marks and any worklist. -/
theorem wp_drained_fixpoint (kind : CollectionKind)
    (hfields : ∀ slot o, h.objectAt slot = some o → ∀ value ∈ o.payload.referenceFields,
      h.Valid value)
    (he : h.EphemeronsSound) (hworklist : ∀ id ∈ worklist, h.Resolves id) :
    wp (do drainMarkWorklist kind worklist; processEphemeronFixpoint kind [])
      (fun _ h' => ∀ slot, h'.LiveAt kind slot ↔ h.LeastClosure kind worklist slot)
      (fun _ _ => False) h := by
  have hstart := tracingFrom_start kind h.EphemeronReference hfields hworklist
  rw [wp_bind]
  refine wp_mono hstart.wp_drainMarkWorklist (fun _ h₁ h₁spec => ?_) fun _ _ he => he
  obtain ⟨hm₁, ht₁, -⟩ := h₁spec
  have hfixpoint := ht₁.wp_processEphemeronFixpoint
    (fun _ _ _ howner hkey hedge => .gate howner hkey (hm₁.same.ephemeronReference.mp hedge))
    (he.marksOnly hm₁)
  refine wp_mono hfixpoint (fun _ h₂ h₂spec => ?_) fun _ _ he => he
  obtain ⟨hm₂, ht₂, hclosed, -⟩ := h₂spec
  have hm := hm₁.trans hm₂
  have hclosed' := hclosed.resolve_right fun ⟨_, id, hmem, _⟩ => List.not_mem_nil hmem
  exact fun slot => ht₂.liveAt_iff hm (liveAt_closed hm hclosed')

end Closure

/-- A registry in another order names the same ephemerons. -/
theorem EphemeronsSound.perm {h : Heap} {registry : List ObjectId} (he : h.EphemeronsSound)
    (hperm : registry.Perm h.ephemerons) : { h with ephemerons := registry }.EphemeronsSound where
  listed slot o ho hkind := by
    obtain ⟨owner, hmem, hl, hslot⟩ := he.listed slot o ho hkind
    exact ⟨owner, hperm.mem_iff.mpr hmem, hl, hslot⟩
  valid owner hmem := he.valid owner (hperm.mem_iff.mp hmem)

/-- From any marks, any worklist and any order of the registry the fixpoint ends, and only marks
objects. What it leaves live is the least closure if its worklist has been drained or there is an
ephemeron to activate at its start, so always if the worklist is drained before it; otherwise it
drains its worklist and activates nothing. The closure is closed under all strong references where
what is live to begin with refers to nothing else. -/
theorem processEphemeronFixpoint_closure (h : Heap) (kind : CollectionKind)
    (worklist registry : List ObjectId)
    (hfields : ∀ slot o, h.objectAt slot = some o → ∀ value ∈ o.payload.referenceFields,
      h.Valid value)
    (he : h.EphemeronsSound) (hperm : registry.Perm h.ephemerons)
    (hworklist : ∀ id ∈ worklist, h.Resolves id) :
    (∃ h', processEphemeronFixpoint kind worklist { h with ephemerons := registry } = .ok () h' ∧
      FixpointRuns kind worklist { h with ephemerons := registry } h' ∧
      { h with ephemerons := registry }.MarksOnly h' ∧
      ((∀ id ∈ worklist, h.NamesLive kind id) ∨ ¬h.EphemeronClosed kind →
        ∀ slot, h'.LiveAt kind slot ↔ h.LeastClosure kind worklist slot) ∧
      (h.EphemeronClosed kind → ∀ slot, h'.LiveAt kind slot ↔
        Reach (h.StartsLive kind worklist) (h.UnscannedReference kind) (fun _ _ _ => False) slot)) ∧
    (∃ h', (do drainMarkWorklist kind worklist; processEphemeronFixpoint kind [])
        { h with ephemerons := registry } = .ok () h' ∧
      ∀ slot, h'.LiveAt kind slot ↔ h.LeastClosure kind worklist slot) ∧
    (h.Traces kind worklist → ∀ slot, h.LeastClosure kind worklist slot ↔
      Reach (h.StartsLive kind worklist) h.StrongReference h.EphemeronReference slot) := by
  have he' := he.perm hperm
  have hfields' : ∀ slot o, { h with ephemerons := registry }.objectAt slot = some o →
      ∀ value ∈ o.payload.referenceFields, { h with ephemerons := registry }.Valid value := hfields
  have hleast := wp_processEphemeronFixpoint_least kind hfields' he' hworklist
  have hsingle := wp_processEphemeronFixpoint_single kind hfields' he' hworklist
  have hdrained := wp_drained_fixpoint kind hfields' he' hworklist
  refine ⟨?_, ?_, fun ht slot => ht.leastClosure_iff⟩
  · obtain ⟨⟨⟩, h', hrun, hm, hruns, hclosure⟩ := wp_exists_ok hleast
    refine ⟨h', hrun, hruns, hm, hclosure, fun hclosed => ?_⟩
    have honly := wp_ok hrun (hsingle hclosed)
    exact honly
  · obtain ⟨⟨⟩, h', hrun, hclosure⟩ := wp_exists_ok hdrained
    exact ⟨h', hrun, hclosure⟩

/-! ## Where the fixpoint stops early -/

/-- A key, a value and an ephemeron between them. -/
def gatedHeap : Heap := (Heap.empty .quiet).run [.call (.allocatePair .nil .nil),
  .call (.allocatePair .nil .nil), .call (.allocateEphemeron (.object ⟨0, 1⟩) (.object ⟨1, 1⟩) true)]

/-- A pair and another one that refers to it. -/
def linkedHeap : Heap := (Heap.empty .quiet).run [.call (.allocatePair .nil .nil),
  .call (.allocatePair (.object ⟨0, 1⟩) .nil)]

theorem gatedHeap_wf : gatedHeap.Wf := by
  have hnil : ∀ h : Heap, h.Regular (.call (.allocatePair .nil .nil)) ↔
      ((Action.call (.allocatePair .nil .nil)).after h).Within := by
    intro h
    refine ⟨fun hr => hr.within, fun hin => ⟨?_, fun hstale => hstale, hin⟩⟩
    intro v hv id heq
    subst heq
    exact absurd hv (by simp [Action.operands, Operation.arguments])
  refine (empty_wf .quiet).run ⟨(hnil _).mpr ?_, (hnil _).mpr ?_, ⟨?_, fun hstale => hstale, ?_⟩, trivial⟩
  · decide +kernel
  · decide +kernel
  · intro v hv
    rcases List.mem_cons.mp hv with rfl | hv
    · decide +kernel
    · cases List.mem_singleton.mp hv
      decide +kernel
  · decide +kernel

/-- The fixpoint on a drained worklist, and the drained run, where the key and the owner are grey. -/
theorem processEphemeronFixpoint_closure_gated :
    ∃ h', (do drainMarkWorklist .major [⟨2, 1⟩, ⟨0, 1⟩]; processEphemeronFixpoint .major [])
        gatedHeap = .ok () h' ∧
      ∀ slot, h'.LiveAt .major slot ↔ gatedHeap.LeastClosure .major [⟨2, 1⟩, ⟨0, 1⟩] slot := by
  have hs := gatedHeap_wf.toSound
  have hworklist : ∀ id ∈ [(⟨2, 1⟩ : ObjectId), ⟨0, 1⟩], gatedHeap.Resolves id := by
    intro id hid
    rcases List.mem_cons.mp hid with rfl | hid
    · exact ⟨2, _, rfl⟩
    · cases List.mem_singleton.mp hid
      exact ⟨0, _, rfl⟩
  exact (processEphemeronFixpoint_closure gatedHeap .major _ gatedHeap.ephemerons
    (fun slot o ho => hs.referenceFields ho) hs.ephemeronsSound (.refl _) hworklist).2.1

/-- The heap with a mark on the object at a slot. -/
def withMark (h : Heap) (slot : ℕ) : Heap :=
  match h.objectAt slot with
  | some o => h.putObject slot { o with marked := true }
  | none => h

/-- Two states in which the fixpoint does not reach the least closed set. With the owner and the
key of an ephemeron on the worklist the only pass finds neither live, and its value stays dead. The
references of an object that is marked at the start are not followed. -/
theorem processEphemeronFixpoint_stops :
    (∃ h', processEphemeronFixpoint .major [⟨2, 1⟩, ⟨0, 1⟩] gatedHeap = .ok () h' ∧
      ¬h'.LiveAt .major 1 ∧ Reach (gatedHeap.StartsLive .major [⟨2, 1⟩, ⟨0, 1⟩])
        gatedHeap.StrongReference gatedHeap.EphemeronReference 1) ∧
    ∃ h', processEphemeronFixpoint .major [] (linkedHeap.withMark 1) = .ok () h' ∧
      ¬h'.LiveAt .major 0 ∧ Reach ((linkedHeap.withMark 1).StartsLive .major [])
        (linkedHeap.withMark 1).StrongReference (linkedHeap.withMark 1).EphemeronReference 0 := by
  refine ⟨⟨_, rfl, ?_, ?_⟩, _, rfl, ?_, ?_⟩
  · rintro ⟨o, ho, hcounts⟩
    cases ho
    exact nomatch hcounts
  · have howner : gatedHeap.StartsLive .major [⟨2, 1⟩, ⟨0, 1⟩] 2 := .inr ⟨⟨2, 1⟩, by simp, _, rfl⟩
    have hkey : gatedHeap.StartsLive .major [⟨2, 1⟩, ⟨0, 1⟩] 0 := .inr ⟨⟨0, 1⟩, by simp, _, rfl⟩
    exact .gate (.init howner) (.init hkey) ⟨_, ⟨0, 1⟩, ⟨1, 1⟩, _, _, rfl, rfl, rfl, rfl⟩
  · rintro ⟨o, ho, hcounts⟩
    cases ho
    exact nomatch hcounts
  · have hmarked : (linkedHeap.withMark 1).StartsLive .major [] 1 := .inl ⟨_, rfl, rfl⟩
    exact .edge (.init hmarked) ⟨_, ⟨0, 1⟩, _, rfl, List.mem_cons_self, rfl⟩

end Heap

end LanguageRuntime.Gc
