import LanguageRuntime.Gc.StepTheorems

/-!
# Runs of incremental compaction

However many objects a step may move, it never throws on a heap that satisfies the
representation invariant, and it leaves one that does.
-/

namespace LanguageRuntime.Gc

open LanguageRuntime LanguageRuntime.Library

namespace Heap

/-- A value with its identifier replaced by the current one. -/
def canonicalValue (h : Heap) : Value → Value := Value.mapObject h.canonical

/-- `h'` is `h` some steps further in the phase; the caller's `cells` have become `cells'`. The
roots of both hold identifiers of the same objects. -/
structure Steps (h h' : Heap) (c c' : IncrementalCompaction) (cells cells' : List Value) :
    Prop where
  phase : h'.phase = .compacting c'
  tables : c' = { c with forwarding := c'.forwarding, cursor := c'.cursor }
  cursor : c.cursor ≤ c'.cursor
  objects : ∀ e ∈ c.plan, ∀ o, h.objectAt (c.slotOf e) = some o →
    ∃ o', h'.objectAt (c'.slotOf e) = some o' ∧ (o' = o ∨ o' = o.promote)
  rootCells : h'.rootCells.map h'.canonicalValue = h.rootCells.map h'.canonicalValue
  handleRoots : h'.handleRoots.map (fun root => { root with slot := h'.canonicalValue root.slot }) =
    h.handleRoots.map fun root => { root with slot := h'.canonicalValue root.slot }
  cells : cells'.map h'.canonicalValue = cells.map h'.canonicalValue
  stressConfig : h'.stressConfig = h.stressConfig
  length : h'.objects.length = h.objects.length

theorem Steps.refl {h : Heap} {c : IncrementalCompaction} (hphase : h.phase = .compacting c)
    (cells : List Value) : h.Steps h c c cells cells :=
  ⟨hphase, rfl, Nat.le_refl _, fun _ _ o ho => ⟨o, ho, .inl rfl⟩, rfl, rfl, rfl, rfl, rfl⟩

theorem Wf.compacting {h : Heap} {c : IncrementalCompaction} (hw : h.Wf)
    (hphase : h.phase = .compacting c) : h.Unmarked ∧ c.Layout h := by
  have hsaid := hw.phase
  rwa [PhaseSound, hphase] at hsaid

end Heap

namespace IncrementalCompaction

open Heap

section Later

variable {c c' : IncrementalCompaction} {h h' h'' : Heap} {e : IncrementalCompactionEntry}
  {id : ObjectId} {value : Value}

/-- What an identifier names does not change while the plan is executed. -/
theorem Names.later (hn : c.Names id e)
    (hc : c' = { c with forwarding := c'.forwarding, cursor := c'.cursor })
    (hle : c.cursor ≤ c'.cursor) : c'.Names id e := by
  have hplan : c'.plan = c.plan := by rw [hc]
  refine ⟨hplan ▸ hn.planned, hn.named.imp_right fun hand => ⟨?_, hand.2⟩⟩
  rw [Done, hplan]
  exact (List.take_subset_take_left _ hle) hand.1

/-- Canonicalizing twice is canonicalizing with the later tables. -/
theorem Layout.canonical_later (hl : c.Layout h) (hl' : c'.Layout h') (hst : h.Storage)
    (hst' : h'.Storage) (hphase : h.phase = .compacting c) (hphase' : h'.phase = .compacting c')
    (hc : c' = { c with forwarding := c'.forwarding, cursor := c'.cursor })
    (hle : c.cursor ≤ c'.cursor) (hv : h.Valid value) :
    h'.canonicalValue (h.canonicalValue value) = h'.canonicalValue value := by
  cases value with
  | object id =>
    obtain ⟨e, hn⟩ := (hl.resolves_iff hphase).mp (valid_object.mp hv)
    have hid : h.canonical id = c.idOf e := hl.canonical_of_names hst hphase hn
    have hn' : c'.Names (c.idOf e) e := (names_idOf hn.planned).later hc hle
    show Value.object (h'.canonical (h.canonical id)) = Value.object (h'.canonical id)
    rw [hid, hl'.canonical_of_names hst' hphase' hn',
      hl'.canonical_of_names hst' hphase' (hn.later hc hle)]
  | _ => rfl

end Later

end IncrementalCompaction

namespace Heap

variable {h h' h'' : Heap} {c c' c'' : IncrementalCompaction}
  {cells cells' cells'' : List Value}

theorem map_canonical_of_later {values : List Value} (hv : ∀ value ∈ values, h.Valid value)
    (hlater : ∀ value, h.Valid value →
      h'.canonicalValue (h.canonicalValue value) = h'.canonicalValue value) :
    (values.map h.canonicalValue).map h'.canonicalValue = values.map h'.canonicalValue := by
  rw [List.map_map]
  exact List.map_congr_left fun value hvalue => hlater value (hv value hvalue)

/-- Steps compose. -/
theorem Steps.trans (hw : h.Wf) (hw' : h'.Wf) (hw'' : h''.Wf)
    (hs : h.Steps h' c c' cells cells') (hs' : h'.Steps h'' c' c'' cells' cells'')
    (hcells : ∀ value ∈ cells, h'.Valid value) (hcells' : ∀ value ∈ cells', h'.Valid value)
    (hroots : ∀ value, h.Valid value → h'.Valid value) : h.Steps h'' c c'' cells cells'' := by
  have hl' := (hw'.compacting hs.phase).2
  have hl'' := (hw''.compacting hs'.phase).2
  have hlater : ∀ value, h'.Valid value →
      h''.canonicalValue (h'.canonicalValue value) = h''.canonicalValue value := fun value hv =>
    hl'.canonical_later hl'' hw'.storage hw''.storage hs.phase hs'.phase hs'.tables hs'.cursor hv
  refine ⟨hs'.phase, ?_, hs.cursor.trans hs'.cursor, ?_, ?_, ?_, ?_,
    hs'.stressConfig.trans hs.stressConfig, hs'.length.trans hs.length⟩
  · rw [hs'.tables, hs.tables]
  · intro e he o ho
    have hplan : c'.plan = c.plan := by rw [hs.tables]
    obtain ⟨o', ho', hpromoted⟩ := hs.objects e he o ho
    obtain ⟨o'', ho'', hpromoted'⟩ := hs'.objects e (hplan ▸ he) o' ho'
    refine ⟨o'', ho'', ?_⟩
    rcases hpromoted with rfl | rfl
    · exact hpromoted'
    · exact .inr (hpromoted'.elim (fun heq => heq) fun heq => heq)
  · rw [hs'.rootCells, ← map_canonical_of_later hw'.cells hlater, hs.rootCells,
      map_canonical_of_later (fun v hv => hroots v (hw.cells v hv)) hlater]
  · have hmap : ∀ roots : List HandleRoot, (∀ root ∈ roots, h'.Valid root.slot) →
        (roots.map fun root => { root with slot := h'.canonicalValue root.slot }).map
            (fun root => { root with slot := h''.canonicalValue root.slot }) =
          roots.map fun root => { root with slot := h''.canonicalValue root.slot } := by
      intro roots hvalid
      rw [List.map_map]
      refine List.map_congr_left fun root hroot => ?_
      show HandleRoot.mk root.key (h''.canonicalValue (h'.canonicalValue root.slot)) = _
      rw [hlater _ (hvalid root hroot)]
    rw [hs'.handleRoots, ← hmap _ hw'.handles, hs.handleRoots,
      hmap _ fun root hroot => hroots _ (hw.handles root hroot)]
  · rw [hs'.cells, ← map_canonical_of_later hcells' hlater, hs.cells,
      map_canonical_of_later hcells hlater]

/-! ## One object -/

variable {e : IncrementalCompactionEntry} {extraRoots : List Value}

/-- The step moves the next object of the plan. -/
theorem wp_incrementalCompactEntry (hw : h.Wf) (hphase : h.phase = .compacting c)
    (hnext : c.plan[c.cursor]? = some e) (hextra : ∀ value ∈ extraRoots, h.Valid value) :
    wp (incrementalCompactEntry c e extraRoots)
      (fun cells h' => h'.Wf ∧ (∀ value, h.Valid value → h'.Valid value) ∧
        (∀ value ∈ cells, h'.Valid value) ∧ h.Steps h' c (c.advance e) extraRoots cells)
      (fun _ _ => False) h := by
  have hs := hw.toSound
  have hst := hs.storage
  obtain ⟨hunmarked, hl⟩ := hw.compacting hphase
  have he := IncrementalCompaction.mem_of_next hnext
  obtain ⟨o, ho, hwidth⟩ := hl.objectAt_next hnext
  have hinside := hl.sourceSlot_add_le he
  have hle := hl.destinationSlot_le he
  have hl' := hl.moveEntry hnext hst.lengths ho
  have hr := hl.renumbers hphase hnext hst.lengths ho
  have hst' : (h.moved c e o).Storage := by
    refine hl'.storage ?_ ?_
    · rw [IncrementalCompaction.length_moved]
      exact hst.size
    · rw [IncrementalCompaction.length_moved, ← hst.lengths]
      exact List.length_set
  have hvalid : ∀ value, h.Valid value → (h.moved c e o).Valid value := fun value hv => hr.valid hv
  have hcanonical : ∀ value, (h.moved c e o).Valid value →
      (h.moved c e o).Valid ((h.moved c e o).canonicalValue value) := fun value hv =>
    hst'.valid_canonical hv
  have hsource : h.resolve e.sourceId = .ok (e.sourceSlot, o) := by
    have hresolve := hl.resolve_of_names hphase (e := e) ⟨he, .inl rfl⟩
      (by rw [IncrementalCompaction.slotOf_of_not_done (hl.not_done_next hnext)]; exact ho)
    rwa [IncrementalCompaction.slotOf_of_not_done (hl.not_done_next hnext)] at hresolve
  have hfree : ((List.range e.width).any fun offset =>
      (h.objectAt (e.destinationSlot + offset)).isSome
        && e.destinationSlot + offset ≠ e.sourceSlot) = false := by
    rw [List.any_eq_false]
    intro offset hoffset hand
    obtain ⟨hsome, hne⟩ := Bool.and_eq_true_iff.mp hand
    obtain ⟨o', ho'⟩ := Option.isSome_iff_exists.mp hsome
    exact of_decide_eq_true hne (hl.destination_free hnext (List.mem_range.mp hoffset) ho')
  have hrewrite : ∀ value ∈ (h.moveEntry c e o).traceCollectionRoots extraRoots,
      (h.moveEntry c e o).rewriteIncrementalCompactionValue false value =
        .ok ((h.moved c e o).canonicalValue value) := by
    intro value hvalue
    have hv : h.Valid value := by
      simp only [traceCollectionRoots, List.mem_append, List.mem_map] at hvalue
      rcases hvalue with (hvalue | ⟨root, hroot, rfl⟩) | hvalue
      · exact hs.cells value hvalue
      · exact hs.handles root hroot
      · exact hextra value hvalue
    exact hl'.rewriteValue_eq_ok hst' rfl (hvalid value hv)
  unfold incrementalCompactEntry
  refine wp_query_ok hsource ?_
  rw [wp_bind, wp_get]
  simp only [ne_eq, not_true_eq_false, if_false, hwidth, Nat.not_lt.mpr (show
    e.destinationSlot + e.width ≤ h.objects.length by omega), hfree, Bool.false_eq_true]
  rw [wp_bind, wp_set, wp_bind, wp_get, wp_bind, wp_eq_ok (rewriteRoots_eq_ok hrewrite), wp_bind,
    wp_modify]
  -- the side tables are forwarded after the roots; the order does not matter
  show wp _ _ _ ((h.moved c e o).mapRoots (h.moved c e o).canonicalValue)
  have hfinal : ∀ rememberedSet, Remembers { (h.moved c e o).mapRoots
        (h.moved c e o).canonicalValue with rememberedSet := rememberedSet } →
      wp (do
          HeapM.query (·.validateAfterCollection
            (extraRoots.map (h.moved c e o).canonicalValue))
          return extraRoots.map (h.moved c e o).canonicalValue)
        (fun cells h' => h'.Wf ∧ (∀ value, h.Valid value → h'.Valid value) ∧
          (∀ value ∈ cells, h'.Valid value) ∧ h.Steps h' c (c.advance e) extraRoots cells)
        (fun _ _ => False) { (h.moved c e o).mapRoots (h.moved c e o).canonicalValue with
          rememberedSet := rememberedSet } := by
    intro rememberedSet hremembers
    have hcells : ∀ value ∈ extraRoots.map (h.moved c e o).canonicalValue,
        (h.moved c e o).Valid value := by
      intro value hvalue
      obtain ⟨root, hroot, rfl⟩ := List.mem_map.mp hvalue
      exact hcanonical root (hvalid root (hextra root hroot))
    have hsound : Sound { (h.moved c e o).mapRoots (h.moved c e o).canonicalValue with
        rememberedSet := rememberedSet } := by
      refine hs.renumbers ⟨hr.target, hr.origin, hr.ordered, hr.resolves⟩
        ⟨hst'.size, hst'.lengths, hst'.inside, hst'.disjoint, hst'.named⟩ ?_ ?_ hremembers
        rfl rfl rfl
      · intro value hvalue
        obtain ⟨root, hroot, rfl⟩ := List.mem_map.mp hvalue
        exact hcanonical root (hvalid root (hs.cells root hroot))
      · intro root' hroot'
        obtain ⟨root, hroot, rfl⟩ := List.mem_map.mp hroot'
        exact hcanonical root.slot (hvalid root.slot (hs.handles root hroot))
    have hphaseSound : (h.moved c e o).PhaseSound :=
      ⟨hl.unmarked_moved hnext ho hunmarked, hl'⟩
    have hwf : Wf { (h.moved c e o).mapRoots (h.moved c e o).canonicalValue with
        rememberedSet := rememberedSet } :=
      ⟨hsound, hphaseSound.frame rfl rfl rfl rfl rfl rfl⟩
    have hagain : ∀ value, h.Valid value →
        (h.moved c e o).canonicalValue ((h.moved c e o).canonicalValue value) =
          (h.moved c e o).canonicalValue value := fun value hv =>
      hl'.canonical_later hl' hst' hst' rfl rfl rfl (Nat.le_refl _) (hvalid value hv)
    refine wp_query_ok (hsound.validateAfterCollection_eq_ok hcells) ?_
    refine ⟨hwf, hvalid, hcells, rfl, rfl, Nat.le_succ _, ?_, ?_, ?_, ?_, rfl, ?_⟩
    · intro e' he' o' ho'
      refine ⟨_, hl.objectAt_advance hnext ho he' ho', ?_⟩
      split
      · exact .inr rfl
      · exact .inl rfl
    · show (h.rootCells.map (h.moved c e o).canonicalValue).map (h.moved c e o).canonicalValue = _
      rw [List.map_map]
      exact List.map_congr_left fun value hvalue => hagain value (hs.cells value hvalue)
    · show (h.handleRoots.map fun root =>
          { root with slot := (h.moved c e o).canonicalValue root.slot }).map
            (fun root => { root with slot := (h.moved c e o).canonicalValue root.slot }) = _
      rw [List.map_map]
      refine List.map_congr_left fun root hroot => ?_
      show HandleRoot.mk root.key ((h.moved c e o).canonicalValue
        ((h.moved c e o).canonicalValue root.slot)) = _
      rw [hagain root.slot (hs.handles root hroot)]
      rfl
    · show (extraRoots.map (h.moved c e o).canonicalValue).map (h.moved c e o).canonicalValue = _
      rw [List.map_map]
      exact List.map_congr_left fun value hvalue => hagain value (hextra value hvalue)
    · show (h.moved c e o).objects.length = _
      exact IncrementalCompaction.length_moved
  have hbut := hl.remembersBut_moved hst hst' hphase hnext ho hs.remembers
  by_cases hyoung : o.isYoung = true
  · rw [if_pos hyoung] at hbut
    simp only [hyoung, if_true]
    rw [wp_bind]
    refine wp_mono (wp_recordPromotedObjectEdges
      (h := (h.moved c e o).mapRoots (h.moved c e o).canonicalValue)
      ⟨hst'.size, hst'.lengths, hst'.inside, hst'.disjoint, hst'.named⟩ ?_ ?_
      ⟨hbut.nodup, hbut.old, hbut.complete⟩) (fun _ h' hpost => ?_) fun _ _ he => he
    · intro slot o₁ ho₁ value hvalue
      obtain ⟨id, o', ho', -, hp⟩ := hr.origin_objectAt hst' ho₁
      exact hvalid value (hs.fields id.slot o' (objectAt_of_lookup ho') value
        (List.mem_append_left _ (hp ▸ hvalue)))
    · intro slot hslot
      rw [List.mem_singleton.mp hslot]
      exact ⟨o.promote, hl.objectAt_moved_self he, rfl⟩
    · obtain ⟨heq, hremembers⟩ := hpost
      rw [heq]
      rw [heq] at hremembers
      exact hfinal _ hremembers
  · rw [if_neg hyoung] at hbut
    simp only [hyoung]
    exact hfinal _ ⟨hbut.nodup, hbut.old, hbut.remembers.complete⟩

/-! ## Several objects -/

/-- What `budget` rounds of the loop leave of the heap `h`. -/
structure StepsBy (h : Heap) (c : IncrementalCompaction) (budget : ℕ) (extraRoots : List Value)
    (result : ℕ × List Value) (h' : Heap) : Prop where
  wf : h'.Wf
  valid : ∀ value, h.Valid value → h'.Valid value
  cells : ∀ value ∈ result.2, h'.Valid value
  count : result.1 = min budget (c.plan.length - c.cursor)
  steps : ∃ c', h.Steps h' c c' extraRoots result.2 ∧ c'.cursor = c.cursor + result.1

theorem StepsBy.refl {budget : ℕ} (hw : h.Wf) (hphase : h.phase = .compacting c)
    (hextra : ∀ value ∈ extraRoots, h.Valid value)
    (hcount : 0 = min budget (c.plan.length - c.cursor)) :
    h.StepsBy c budget extraRoots (0, extraRoots) h :=
  ⟨hw, fun _ hv => hv, hextra, hcount, c, .refl hphase _, rfl⟩

/-- The loop moves as many objects as its budget and the plan allow. -/
theorem wp_incrementalCompactLoop {budget : ℕ} (hw : h.Wf) (hphase : h.phase = .compacting c)
    (hextra : ∀ value ∈ extraRoots, h.Valid value) :
    wp (incrementalCompactLoop budget extraRoots) (h.StepsBy c budget extraRoots)
      (fun _ _ => False) h := by
  induction budget generalizing h c extraRoots with
  | zero => exact .refl hw hphase hextra (by omega)
  | succ budget ih =>
    unfold incrementalCompactLoop
    rw [wp_bind, wp_get]
    simp only [hphase]
    cases hnext : c.plan[c.cursor]? with
    | none =>
      have hlength := List.getElem?_eq_none_iff.mp hnext
      exact .refl hw hphase hextra (by omega)
    | some e =>
      have hlt := (List.getElem?_eq_some_iff.mp hnext).1
      rw [wp_bind]
      refine wp_mono (wp_incrementalCompactEntry hw hphase hnext hextra)
        (fun cells h₁ hpost => ?_) fun _ _ he => he
      obtain ⟨hw₁, hvalid₁, hcells₁, hsteps₁⟩ := hpost
      rw [wp_bind]
      refine wp_mono (ih hw₁ hsteps₁.phase hcells₁) (fun result h₂ hpost => ?_) fun _ _ he => he
      have hcount : result.1 = min budget (c.plan.length - (c.cursor + 1)) := hpost.count
      obtain ⟨c₂, hsteps₂, hcursor₂⟩ := hpost.steps
      have hcursor : c₂.cursor = c.cursor + 1 + result.1 := hcursor₂
      rw [wp_pure]
      refine ⟨hpost.wf, fun value hv => hpost.valid value (hvalid₁ value hv), hpost.cells, ?_, c₂,
        .trans hw hw₁ hpost.wf hsteps₁ hsteps₂ (fun v hv => hvalid₁ v (hextra v hv)) hcells₁
          hvalid₁, ?_⟩
      · show result.1 + 1 = _
        omega
      · show c₂.cursor = c.cursor + (result.1 + 1)
        omega

/-- A step of the phase never throws. -/
theorem wp_incrementalCompactStepImpl {budget : ℕ} (hw : h.Wf)
    (hphase : h.phase = .compacting c) (hextra : ∀ value ∈ extraRoots, h.Valid value) :
    wp (incrementalCompactStepImpl budget extraRoots) (h.StepsBy c budget extraRoots)
      (fun _ _ => False) h := by
  unfold incrementalCompactStepImpl
  rw [wp_bind, wp_get]
  simp only [incrementalCompactionActive, hphase, Bool.not_true, Bool.false_eq_true, if_false]
  rw [wp_bind]
  refine wp_mono (wp_incrementalCompactLoop hw hphase hextra) (fun result h' hpost => ?_)
    fun _ _ he => he
  split
  · exact wp_query_ok (hpost.wf.toSound.validateAfterCollection_eq_ok hpost.cells) hpost
  · exact hpost

end Heap

end LanguageRuntime.Gc
