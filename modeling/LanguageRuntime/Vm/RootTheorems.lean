import LanguageRuntime.Gc.MutatorTheorems
import LanguageRuntime.Vm.Machine

/-!
# The roots of the machine

A collection finds its roots in the frames of the machine and puts the new identifiers back where
it found the old ones: the frames keep their shape. Parts of the machine are judged by `Safely`:
they call the heap with current identifiers only, and leave no other ones in the frames.
-/

namespace LanguageRuntime.Vm

open LanguageRuntime LanguageRuntime.Gc LanguageRuntime.Gc.Heap LanguageRuntime.Library

/-! ## Refilling -/

section Refill

variable {frame : Frame} {m : Machine} {h : Heap} {cells : List Value} {v : Value}

theorem mem_frameCells :
    v ∈ frame.rootCells ↔ v ∈ frame.stack ∨ v ∈ frame.locals ∨ frame.closure = some v := by
  simp [Frame.rootCells]

theorem mem_rootCells : v ∈ m.rootCells ↔
    (∃ frame ∈ m.frames, v ∈ frame.rootCells) ∨ m.pendingException = some v := by
  simp [Machine.rootCells]

/-- A frame takes as many cells as it has, in their order. -/
theorem refill_frameCells (hlength : frame.rootCells.length ≤ cells.length) :
    (frame.refill cells).1.rootCells = cells.take frame.rootCells.length ∧
      (frame.refill cells).2 = cells.drop frame.rootCells.length := by
  simp only [Frame.rootCells, List.length_append, List.length_reverse] at hlength ⊢
  simp only [Frame.refill, List.splitAt_eq, List.reverse_reverse, List.drop_drop]
  refine ⟨?_, trivial⟩
  have hclosure : ∀ cells : List Value, frame.closure.toList.length ≤ cells.length →
      (cells.take frame.closure.toList.length).head?.toList =
        cells.take frame.closure.toList.length := by
    intro cells hcells
    cases hc : frame.closure with
    | none => rfl
    | some closure =>
      rw [hc] at hcells
      cases cells with
      | nil => cases hcells
      | cons value cells => rfl
  rw [hclosure _ (by rw [List.length_drop]; omega), List.take_add, List.take_add]

theorem refillFrames_cons (frame : Frame) (frames : List Frame) (cells : List Value) :
    refillFrames (frame :: frames) cells =
      ((frame.refill cells).1 :: (refillFrames frames (frame.refill cells).2).1,
        (refillFrames frames (frame.refill cells).2).2) := rfl

theorem refillFrames_cells (frames : List Frame)
    (hlength : (frames.flatMap Frame.rootCells).length ≤ cells.length) :
    (refillFrames frames cells).1.flatMap Frame.rootCells =
        cells.take (frames.flatMap Frame.rootCells).length ∧
      (refillFrames frames cells).2 = cells.drop (frames.flatMap Frame.rootCells).length := by
  induction frames generalizing cells with
  | nil => exact ⟨rfl, rfl⟩
  | cons frame frames ih =>
    rw [List.flatMap_cons, List.length_append] at hlength ⊢
    obtain ⟨hframe, hrest⟩ := refill_frameCells (by omega : frame.rootCells.length ≤ cells.length)
    have hleft : (frames.flatMap Frame.rootCells).length ≤ (frame.refill cells).2.length := by
      rw [hrest, List.length_drop]
      omega
    obtain ⟨hframes, hlast⟩ := ih hleft
    rw [refillFrames_cons]
    refine ⟨?_, ?_⟩
    · rw [List.flatMap_cons, hframe, hframes, hrest, List.take_add]
    · rw [hlast, hrest, List.drop_drop]

/-- The machine finds the cells where it looks for them. -/
theorem refill_rootCells (hlength : cells.length = m.rootCells.length) :
    (m.refill cells).rootCells = cells := by
  have hcells : m.rootCells.length =
      (m.frames.reverse.flatMap Frame.rootCells).length + m.pendingException.toList.length := by
    rw [Machine.rootCells, List.length_append]
  obtain ⟨hframes, hrest⟩ := refillFrames_cells m.frames.reverse
    (by omega : (m.frames.reverse.flatMap Frame.rootCells).length ≤ cells.length)
  show (refillFrames m.frames.reverse cells).1.reverse.reverse.flatMap _ ++
    (refillFrames m.frames.reverse cells).2.head?.toList = cells
  rw [List.reverse_reverse, hframes, hrest]
  have hlast : (cells.drop (m.frames.reverse.flatMap Frame.rootCells).length).length ≤ 1 := by
    rw [List.length_drop]
    have hpending : m.pendingException.toList.length ≤ 1 := by cases m.pendingException <;> simp
    omega
  have hhead : ∀ cells : List Value, cells.length ≤ 1 → cells.head?.toList = cells := by
    intro cells hcells
    match cells, hcells with
    | [], _ => rfl
    | [_], _ => rfl
  rw [hhead _ hlast, List.take_append_drop]

/-- What an operation leaves behind is what the machine goes on with. -/
theorem rootedHeap_withHeap (hcells : h.Cells m.rootCells.length) :
    (m.withHeap h).rootedHeap = h := by
  have hroots : (m.withHeap h).rootCells = h.rootCells := refill_rootCells hcells
  unfold Machine.rootedHeap
  rw [hroots]
  rfl

/-- Frames that differ in the values of their cells only. -/
structure Frame.SameShape (frame frame' : Frame) : Prop where
  functionIndex : frame'.functionIndex = frame.functionIndex
  pc : frame'.pc = frame.pc
  stack : frame'.stack.length = frame.stack.length
  locals : frame'.locals.length = frame.locals.length
  closure : frame'.closure.isSome = frame.closure.isSome

theorem refill_sameShape (hlength : frame.rootCells.length ≤ cells.length) :
    frame.SameShape (frame.refill cells).1 := by
  simp only [Frame.rootCells, List.length_append, List.length_reverse] at hlength
  refine ⟨rfl, rfl, ?_, ?_, ?_⟩
  · simp only [Frame.refill, List.splitAt_eq, List.length_reverse, List.length_take]
    omega
  · simp only [Frame.refill, List.splitAt_eq, List.length_take, List.length_drop]
    omega
  · cases hc : frame.closure with
    | none => simp [Frame.refill, hc]
    | some closure =>
      rw [hc] at hlength
      simp only [Option.toList_some, List.length_singleton] at hlength
      simp only [Frame.refill, List.splitAt_eq, hc, Option.toList_some, List.length_singleton,
        List.drop_drop, Option.isSome_some]
      rw [List.head?_take, if_neg Nat.one_ne_zero, List.head?_drop, List.getElem?_eq_getElem]
      · rfl
      · omega

theorem refillFrames_sameShape (frames : List Frame)
    (hlength : (frames.flatMap Frame.rootCells).length ≤ cells.length) :
    List.Forall₂ Frame.SameShape frames (refillFrames frames cells).1 := by
  induction frames generalizing cells with
  | nil => exact .nil
  | cons frame frames ih =>
    rw [List.flatMap_cons, List.length_append] at hlength
    have hframe : frame.rootCells.length ≤ cells.length := by omega
    rw [refillFrames_cons]
    refine .cons (refill_sameShape hframe) (ih ?_)
    rw [(refill_frameCells hframe).2, List.length_drop]
    omega

end Refill

/-! ## Machines that keep to the heap's terms -/

/-- The heap has been driven with current identifiers, and the machine holds current ones, in its
roots and in the values `temps` an instruction is at work on. -/
structure Machine.Safe (config : StressConfig) (temps : List Value) (m : Machine) : Prop where
  driven : m.rootedHeap.Driven config
  current : m.heap.Unspent → ∀ v, v ∈ temps ∨ v ∈ m.rootCells → m.heap.NamesCurrent v

theorem unspent_rootedHeap {m : Machine} : m.rootedHeap.Unspent ↔ m.heap.Unspent :=
  ⟨fun hu => ⟨hu.slots, hu.generations⟩, fun hu => ⟨hu.slots, hu.generations⟩⟩

/-- From machines safe with `temps`, a return leaves a machine safe with what it returns, and
an exception one whose heap has been driven. -/
def Safely (config : StressConfig) (temps : List Value) {α : Type} (part : VmM α)
    (K : α → List Value) : Prop :=
  ∀ m, m.Safe config temps →
    wp part (fun a m' => m'.Safe config (K a)) (fun _ m' => m'.rootedHeap.Driven config) m

section Safely

variable {config : StressConfig} {temps : List Value} {α β : Type} {part : VmM α}
  {K : α → List Value} {m m' : Machine} {v : Value}

/-- New cells are old ones, values at hand or no references. -/
theorem Machine.Safe.change (hs : m.Safe config temps) (hheap : m'.heap = m.heap)
    {temps' : List Value}
    (hcells : ∀ v, v ∈ temps' ∨ v ∈ m'.rootCells →
      v ∈ temps ∨ v ∈ m.rootCells ∨ v.isObject = false) : m'.Safe config temps' := by
  have hcurrent : m.heap.Unspent → ∀ v, v ∈ temps' ∨ v ∈ m'.rootCells → m.heap.NamesCurrent v := by
    intro hu v hv
    rcases hcells v hv with htemp | hroot | hscalar
    · exact hs.current hu v (.inl htemp)
    · exact hs.current hu v (.inr hroot)
    · exact namesCurrent_of_not_isObject hscalar
  refine ⟨?_, fun hu => by rw [hheap] at hu ⊢; exact hcurrent hu⟩
  unfold Machine.rootedHeap
  rw [hheap]
  refine hs.driven.setRoots fun hu v hv => ?_
  exact NamesCurrent.valid (hcurrent (unspent_rootedHeap.mp hu) v (.inr hv))

theorem Machine.Safe.mono (hs : m.Safe config temps) {temps' : List Value}
    (hsub : ∀ v ∈ temps', v ∈ temps ∨ v.isObject = false) : m.Safe config temps' := by
  refine hs.change rfl fun v hv => ?_
  rcases hv with hv | hv
  · rcases hsub v hv with htemp | hscalar
    · exact .inl htemp
    · exact .inr (.inr hscalar)
  · exact .inr (.inl hv)

namespace Safely

theorem bind {f : α → VmM β} {L : β → List Value} (hpart : Safely config temps part K)
    (hf : ∀ a, Safely config (K a) (f a) L) : Safely config temps (part >>= f) L :=
  fun m hs => by
    rw [wp_bind]
    exact wp_mono (hpart m hs) (fun a m' hs' => hf a m' hs') fun _ _ he => he

theorem pure {a : α} (hsub : ∀ v ∈ K a, v ∈ temps ∨ v.isObject = false) :
    Safely config temps (Pure.pure a : VmM α) K := fun _ hs => hs.mono hsub

theorem throw (e : VmError) : Safely config temps (MonadExcept.throw e : VmM α) K :=
  fun _ hs => hs.driven

theorem map {f : α → β} {L : β → List Value} (hpart : Safely config temps part fun a => L (f a)) :
    Safely config temps (f <$> part) L := fun m hs => by
  rw [wp_map]
  exact hpart m hs

theorem getting {f : Machine → VmM α} (hf : ∀ m, Safely config temps (f m) K) :
    Safely config temps (MonadState.get >>= f) K := fun m hs => (wp_bind _ _).mpr (hf m m hs)

theorem ite {c : Prop} [Decidable c] {part' : VmM α} (hpart : Safely config temps part K)
    (hpart' : Safely config temps part' K) :
    Safely config temps (if c then part else part') K := by
  split
  · exact hpart
  · exact hpart'

/-- A check that throws before the rest of the program. -/
theorem guard {c : Prop} [Decidable c] {e : VmError} {f : β → VmM α}
    (hpart : Safely config temps part K) :
    Safely config temps (if c then (MonadExcept.throw e : VmM β) >>= f else part) K :=
  .ite (fun _ hs => (wp_bind _ _).mpr hs.driven) hpart

/-- Values may be dropped. -/
theorem weaken {temps' : List Value} (hpart : Safely config temps' part K)
    (hsub : ∀ v ∈ temps', v ∈ temps ∨ v.isObject = false) : Safely config temps part K :=
  fun m hs => hpart m (hs.mono hsub)

theorem forget (hpart : Safely config temps part K) : Safely config temps part fun _ => [] :=
  fun m hs => wp_mono (hpart m hs) (fun _ _ hs' => hs'.mono fun _ hv => nomatch hv) fun _ _ he => he

/-- A change of the machine beside its heap. -/
theorem modify {f : Machine → Machine} {K : Unit → List Value} (hheap : ∀ m, (f m).heap = m.heap)
    (hcells : ∀ m v, v ∈ K () ∨ v ∈ (f m).rootCells →
      v ∈ temps ∨ v ∈ m.rootCells ∨ v.isObject = false) :
    Safely config temps (modifyThe Machine f : VmM Unit) K :=
  fun m hs => hs.change (hheap m) (hcells m)

/-- A change that keeps the roots. -/
theorem modify_same {f : Machine → Machine} (hheap : ∀ m, (f m).heap = m.heap)
    (hcells : ∀ m, (f m).rootCells = m.rootCells) :
    Safely config temps (modifyThe Machine f : VmM Unit) fun _ => temps :=
  .modify hheap fun m v hv => by
    rw [hcells] at hv
    exact hv.imp_right .inl

end Safely

/-! ### The innermost frame -/

theorem mem_modifyHead {f : Frame → Frame} {frames : List Frame} {frame : Frame}
    (hframe : frame ∈ frames.modifyHead f) :
    frame ∈ frames ∨ ∃ frame' ∈ frames, frame = f frame' := by
  cases frames with
  | nil => cases hframe
  | cons head tail =>
    rcases List.mem_cons.mp hframe with rfl | htail
    · exact .inr ⟨head, List.mem_cons_self, rfl⟩
    · exact .inl (List.mem_cons_of_mem _ htail)

/-- The new cells of the innermost frame are old ones, values at hand or no references. -/
theorem safely_modifyFrame {f : Frame → Frame}
    (hf : ∀ frame, ∀ v ∈ (f frame).rootCells,
      v ∈ temps ∨ v ∈ frame.rootCells ∨ v.isObject = false) :
    Safely config temps (modifyFrame f) fun _ => temps := by
  refine .modify (fun _ => rfl) fun m v hv => ?_
  rcases hv with hv | hv
  · exact .inl hv
  · rcases mem_rootCells.mp hv with ⟨frame, hframe, hcell⟩ | hpending
    · rcases mem_modifyHead hframe with hold | ⟨frame', hold, rfl⟩
      · exact .inr (.inl (mem_rootCells.mpr (.inl ⟨frame, hold, hcell⟩)))
      · rcases hf frame' v hcell with htemp | hcell' | hscalar
        · exact .inl htemp
        · exact .inr (.inl (mem_rootCells.mpr (.inl ⟨frame', hold, hcell'⟩)))
        · exact .inr (.inr hscalar)
    · exact .inr (.inl (mem_rootCells.mpr (.inr hpending)))

/-- Reads a part of the innermost frame. -/
theorem safely_activeFrame {f : Frame → VmM α}
    (hf : ∀ frame : Frame, Safely config (frame.rootCells ++ temps) (f frame) K) :
    Safely config temps (activeFrame >>= f) K := by
  intro m hs
  unfold activeFrame
  rw [wp_bind, wp_bind, wp_get]
  cases hframes : m.frames with
  | nil => exact hs.driven
  | cons frame frames =>
    refine hf frame m (hs.change rfl fun v hv => ?_)
    rw [List.mem_append, or_assoc] at hv
    rcases hv with hcell | htemp | hroot
    · exact .inr (.inl (mem_rootCells.mpr (.inl ⟨frame, hframes ▸ List.mem_cons_self, hcell⟩)))
    · exact .inl htemp
    · exact .inr (.inl hroot)

theorem safely_pop : Safely config temps pop fun v => v :: temps := by
  refine safely_activeFrame fun frame => ?_
  cases hstack : frame.stack with
  | nil => exact .throw _
  | cons value stack =>
    refine .bind (safely_modifyFrame fun frame' v hv => ?_) fun _ => .pure fun v hv => ?_
    · rw [mem_frameCells] at hv
      rcases hv with hv | hv
      · -- the rest of the stack has been read from the frame itself
        refine .inl (List.mem_append_left _ (mem_frameCells.mpr (.inl ?_)))
        rw [hstack]
        exact List.mem_cons_of_mem _ hv
      · exact .inr (.inl (mem_frameCells.mpr (.inr hv)))
    · refine .inl ?_
      rcases List.mem_cons.mp hv with rfl | hv
      · refine List.mem_append_left _ (mem_frameCells.mpr (.inl ?_))
        rw [hstack]
        exact List.mem_cons_self
      · exact List.mem_append_right _ hv

theorem safely_popMany (count : ℕ) : Safely config temps (popMany count) fun values => values ++ temps := by
  have hloop : ∀ (rounds : List ℕ) (values : List Value),
      Safely config (values ++ temps)
        (rounds.foldlM (fun values _ => do return (← pop) :: values) values)
        fun values => values ++ temps := by
    intro rounds
    induction rounds with
    | nil => exact fun values => .pure fun v hv => .inl hv
    | cons _ rounds ih =>
      intro values
      rw [List.foldlM_cons]
      exact .bind (.bind safely_pop fun value => .pure fun v hv => .inl hv) fun values => ih values
  exact hloop (List.range count) []

theorem safely_peek (depth : ℕ) : Safely config temps (peek depth) fun v => v :: temps := by
  refine safely_activeFrame fun frame => ?_
  cases hstack : frame.stack[depth]? with
  | none => exact .throw _
  | some value =>
    refine .pure fun v hv => .inl ?_
    rcases List.mem_cons.mp hv with rfl | hv
    · exact List.mem_append_left _ (mem_frameCells.mpr (.inl (List.mem_of_getElem? hstack)))
    · exact List.mem_append_right _ hv

theorem safely_push (hv : v ∈ temps ∨ v.isObject = false) :
    Safely config temps (push v) fun _ => temps := by
  refine safely_modifyFrame fun frame v' hv' => ?_
  rw [mem_frameCells] at hv'
  rcases hv' with hv' | hv'
  · rcases List.mem_cons.mp hv' with rfl | hv'
    · exact hv.imp_right .inr
    · exact .inr (.inl (mem_frameCells.mpr (.inl hv')))
  · exact .inr (.inl (mem_frameCells.mpr (.inr hv')))

theorem safely_advance : Safely config temps advance fun _ => temps :=
  safely_modifyFrame fun _ _ hv => .inr (.inl hv)

theorem safely_drop (count : ℕ) : Safely config temps (drop count) fun _ => temps :=
  .bind (safely_popMany count) fun _ => .pure fun _ hv => .inl (List.mem_append_right _ hv)

/-! ### The heap -/

/-- A query that hands out no identifier, or current ones only. -/
theorem safely_onHeapQuery {f : Heap → Except HeapError α}
    (hroots : ∀ h cells, f { h with rootCells := cells } = f h)
    (hf : ∀ h a, h.Wf → f h = .ok a → ∀ v ∈ K a, v ∈ temps ∨ h.NamesCurrent v) :
    Safely config temps (onHeapQuery f) K := by
  intro m hs
  refine wp_of_run (fun a m' hm => ?_) fun e m' hm => ?_
  · unfold onHeapQuery at hm
    cases hfa : f m.heap with
    | error e =>
      rw [hfa] at hm
      cases hm
    | ok a' =>
      rw [hfa] at hm
      cases hm
      refine ⟨hs.driven, fun hu v hv => ?_⟩
      rcases hv with hv | hv
      · have hw : m.rootedHeap.Wf := hs.driven.wf (unspent_rootedHeap.mpr hu)
        rcases hf m.rootedHeap a hw ((hroots _ _).trans hfa) v hv with htemp | hcurrent
        · exact hs.current hu v (.inl htemp)
        · exact hcurrent
      · exact hs.current hu v (.inr hv)
  · unfold onHeapQuery at hm
    cases hfa : f m.heap with
    | error e' =>
      rw [hfa] at hm
      cases hm
      exact hs.driven
    | ok a' =>
      rw [hfa] at hm
      cases hm

/-- A call of the heap, from what the operation does to the heap with the roots of the machine. -/
theorem wp_onHeap {operation : HeapM α} {Q : α → Heap → Prop} {E : HeapError → Heap → Prop}
    (hop : wp operation Q E m.rootedHeap) :
    wp (onHeap operation) (fun a m' => ∃ h', m' = m.withHeap h' ∧ Q a h')
      (fun _ m' => ∃ e h', m' = m.withHeap h' ∧ E e h') m := by
  unfold wp onHeap at *
  cases hm : operation m.rootedHeap with
  | ok a h' =>
    rw [hm] at hop
    exact ⟨h', rfl, hop⟩
  | error e h' =>
    rw [hm] at hop
    exact ⟨e, h', rfl, hop⟩

/-- A machine safe with no values calls the heap with values that were at hand. -/
theorem Machine.Safe.wp_run (hs : m.Safe config temps) {op : Operation}
    (harguments : op.arguments ⊆ temps) :
    wp op.run
      (fun id h' => (m.withHeap h').Safe config (id.toList.map .object))
      (fun _ h' => (m.withHeap h').rootedHeap.Driven config) m.rootedHeap := by
  have hcalled : m.rootedHeap.Unspent → ∀ v ∈ op.arguments, m.rootedHeap.NamesCurrent v :=
    fun hu v hv => hs.current (unspent_rootedHeap.mp hu) v (.inl (harguments hv))
  have hroots : m.rootedHeap.Unspent → ∀ v ∈ m.rootedHeap.rootCells, m.rootedHeap.NamesCurrent v :=
    fun hu v hv => hs.current (unspent_rootedHeap.mp hu) v (.inr hv)
  refine wp_mono (hs.driven.wp_run hroots hcalled) (fun id h' hpost => ?_) fun e h' hpost => ?_
  · obtain ⟨hdriven, hcells, hreturned⟩ := hpost
    have hrooted : (m.withHeap h').rootedHeap = h' := rootedHeap_withHeap hcells
    refine ⟨by rwa [hrooted], fun hu v hv => ?_⟩
    have hreturned := hreturned hu
    rcases hv with hv | hv
    · obtain ⟨id', hid', rfl⟩ := List.mem_map.mp hv
      intro id'' heq
      cases heq
      exact hreturned.id id' (Option.mem_toList.mp hid')
    · have hcell : v ∈ h'.rootCells := by
        rw [← hrooted]
        exact hv
      exact hreturned.roots v hcell
  · rw [rootedHeap_withHeap hpost.2]
    exact hpost.1

/-- An allocation: the values at hand may have moved, the new identifier is current. -/
theorem safely_onHeap_allocate {operation : HeapM ObjectId} (op : Operation)
    (hop : op.run = some <$> operation)
    (harguments : op.arguments ⊆ temps) :
    Safely config temps (onHeap operation) fun id => [.object id] := by
  intro m hs
  have hwp := hs.wp_run harguments
  rw [hop, wp_map] at hwp
  refine wp_mono (wp_onHeap hwp) ?_ ?_
  · rintro id m' ⟨h', rfl, hsafe⟩
    exact hsafe
  · rintro e m' ⟨e', h', rfl, hdriven⟩
    exact hdriven

/-- A store: the values at hand may have moved. -/
theorem safely_onHeap_store {operation : HeapM Unit} (op : Operation)
    (hop : op.run = (do operation; return none))
    (harguments : op.arguments ⊆ temps) :
    Safely config temps (onHeap operation) fun _ => [] := by
  intro m hs
  have hwp := hs.wp_run harguments
  rw [hop, wp_bind] at hwp
  refine wp_mono (wp_onHeap hwp) ?_ ?_
  · rintro id m' ⟨h', rfl, hsafe⟩
    exact hsafe
  · rintro e m' ⟨e', h', rfl, hdriven⟩
    exact hdriven

/-- A call for its effect. -/
theorem safely_collectWith {op : Operation} (harguments : op.arguments = []) :
    Safely config temps (collectWith op) fun _ => [] := by
  intro m hs
  have hnone : op.arguments ⊆ temps := by
    rw [harguments]
    exact List.nil_subset _
  unfold collectWith
  rw [wp_bind]
  refine wp_mono (wp_onHeap (hs.wp_run hnone)) ?_ ?_
  · rintro id m' ⟨h', rfl, hsafe⟩
    exact hsafe.mono fun v hv => nomatch hv
  · rintro e m' ⟨e', h', rfl, hdriven⟩
    exact hdriven

end Safely

end LanguageRuntime.Vm
