import LanguageRuntime.Vm.Execute
import LanguageRuntime.Vm.RootTheorems

/-!
# Memory safety of the machine

Whatever module the machine executes and however collections interleave with it, it calls the heap
with current identifiers only, and after every round each cell of its frames is the current
identifier of an object or no reference, as long as the heap stays within its limits.
-/

namespace LanguageRuntime.Vm

open LanguageRuntime LanguageRuntime.Bytecode LanguageRuntime.Gc LanguageRuntime.Gc.Heap
  LanguageRuntime.Library

variable {config : StressConfig} {temps : List Value} {α : Type} {module : Module}
  {ins : Instruction} {function : Function}

/-! ## Reading -/

/-- A part that leaves the machine alone. -/
theorem Safely.reading {part : VmM α} (hpart : ∀ m, Preserves (fun m' => m' = m) part) :
    Safely config temps part fun _ => temps := fun m hs =>
  wp_mono (hpart m m rfl) (fun _ _ hm' => hm' ▸ hs) fun _ _ hm' => hm' ▸ hs.driven

theorem safely_asInt64 (v : Value) : Safely config temps (asInt64 v) fun _ => temps := by
  refine .reading fun _ => ?_
  cases v with
  | int64 i => exact .pure _
  | _ => exact .throw _

theorem safely_asBool (v : Value) : Safely config temps (asBool v) fun _ => temps := by
  refine .reading fun _ => ?_
  cases v with
  | bool b => exact .pure _
  | _ => exact .throw _

/-- The identifier of a value at hand. -/
theorem safely_asObject {v : Value} (hv : v ∈ temps) :
    Safely config temps (Vm.asObject v) fun id => .object id :: temps := by
  refine safely_onHeapQuery (f := fun _ => Gc.asObject v) (fun _ _ => rfl) fun h id _ hid v' hv' =>
    .inl ?_
  cases v with
  | object id' =>
    cases hid
    rcases List.mem_cons.mp hv' with rfl | hv'
    · exact hv
    · exact hv'
  | _ => cases hid

theorem safely_requireEntry {β : Type} (operand : Int64) (table : List β) (message : String) :
    Safely config temps (requireEntry operand table message) fun _ => temps := by
  refine .reading fun _ => ?_
  unfold requireEntry
  split
  · exact .pure _
  · exact .throw _

theorem safely_requireFunction (index : ℕ) :
    Safely config temps (requireFunction module index) fun _ => temps := by
  refine .reading fun _ => ?_
  unfold requireFunction
  split
  · exact .pure _
  · exact .throw _

theorem safely_requireIndex (index : Int64) (message : String) :
    Safely config temps (requireIndex index message) fun _ => temps :=
  .reading fun _ => .ite (.throw _) (.pure _)

theorem safely_trapHere {K : α → List Value} (diagnostic : String) :
    Safely config temps (trapHere diagnostic : VmM α) K :=
  safely_activeFrame fun _ => .throw _

/-- A query about the objects that hands out a scalar. -/
theorem safely_query {f : Heap → Except HeapError α}
    (hroots : ∀ h cells, f { h with rootCells := cells } = f h) :
    Safely config temps (onHeapQuery f) fun _ => temps :=
  safely_onHeapQuery hroots fun _ _ _ _ _ hv => .inl hv

/-- A query that hands out a value. -/
theorem safely_loads {f : Heap → Except HeapError Value}
    (hroots : ∀ h cells, f { h with rootCells := cells } = f h)
    (hf : ∀ h v, h.Wf → f h = .ok v → h.NamesCurrent v) :
    Safely config temps (onHeapQuery f) fun v => v :: temps := by
  refine safely_onHeapQuery hroots fun h a hw ha v hv => ?_
  rcases List.mem_cons.mp hv with rfl | hv
  · exact .inr (hf h v hw ha)
  · exact .inl hv

/-- A value at hand, or one that is no reference, is pushed at the end. -/
theorem safely_pushLast {v : Value} (hv : v ∈ temps ∨ v.isObject = false) :
    Safely config temps (push v) fun _ => [] :=
  .forget (safely_push hv)

/-- A map is searched without its roots. -/
theorem findMapEntry_rootCells (h : Heap) (cells : List Value) (id : ObjectId) (key : Value) :
    findMapEntry { h with rootCells := cells } id key = h.findMapEntry id key := by
  have hprobe : ∀ map remaining bucket,
      probeMapEntry { h with rootCells := cells } map key remaining bucket =
        h.probeMapEntry map key remaining bucket := by
    intro map remaining
    induction remaining with
    | zero => exact fun _ => rfl
    | succ remaining ih =>
      intro bucket
      unfold probeMapEntry
      simp only [ih]
      rfl
  unfold findMapEntry
  simp only [hprobe]
  rfl

/-! ## Straight-line instructions -/

theorem safely_pushAllocated {operation : HeapM ObjectId} (op : Operation)
    (hop : op.run = some <$> operation)
    (harguments : op.arguments ⊆ temps) :
    Safely config temps (pushAllocated operation) fun _ => [] :=
  .bind (safely_onHeap_allocate op hop harguments) fun _ => safely_pushLast (.inl List.mem_cons_self)

theorem safely_executeLoad {load : ObjectId → Heap → Except HeapError Value}
    (hroots : ∀ id h cells, load id { h with rootCells := cells } = load id h)
    (hload : ∀ id h v, h.Wf → load id h = .ok v → h.NamesCurrent v) :
    Safely config temps (executeLoad load) fun _ => [] := by
  refine .bind safely_pop fun receiver => .bind (safely_asObject List.mem_cons_self) fun id => ?_
  exact .bind (safely_loads (hroots id) (hload id)) fun v => safely_pushLast (.inl List.mem_cons_self)

theorem safely_executeIndexedLoad {message : String}
    {load : ObjectId → ℕ → Heap → Except HeapError Value}
    (hroots : ∀ id index h cells, load id index { h with rootCells := cells } = load id index h)
    (hload : ∀ id index h v, h.Wf → load id index h = .ok v → h.NamesCurrent v) :
    Safely config temps (executeIndexedLoad message load) fun _ => [] := by
  refine .bind safely_pop fun indexValue => .bind safely_pop fun receiver => ?_
  refine .bind (safely_asInt64 _) fun i => .bind (safely_requireIndex i message) fun index => ?_
  refine .bind (safely_asObject List.mem_cons_self) fun id => ?_
  exact .bind (safely_loads (hroots id index) (hload id index)) fun v =>
    safely_pushLast (.inl List.mem_cons_self)

/-- A load of a scalar. -/
theorem namesCurrent_of_map {β : Type} {f : β → Value} (hf : ∀ b, (f b).isObject = false)
    {x : Except HeapError β} {h : Heap} {v : Value} (hx : f <$> x = .ok v) : h.NamesCurrent v := by
  obtain ⟨b, -, rfl⟩ := map_eq_ok.mp hx
  exact namesCurrent_of_not_isObject (hf b)

/-- A load of a value, as one of the public loads. -/
theorem namesCurrent_of_load {h : Heap} {v : Value} (hw : h.Wf) {x : Except HeapError Value}
    (load : Load) (hrun : load.run h = Loaded.value <$> x) (hx : x = .ok v) : h.NamesCurrent v :=
  hw.namesCurrent_load load (hrun.trans (map_eq_ok.mpr ⟨v, hx, rfl⟩))

theorem namesCurrent_checkedLengthValue {length : ℕ} {message : String} {h : Heap} {v : Value}
    (hv : checkedLengthValue length message = .ok v) : h.NamesCurrent v := by
  unfold checkedLengthValue at hv
  split at hv
  · cases hv
  · cases hv
    exact namesCurrent_of_not_isObject rfl

theorem safely_executeStrConcat : Safely config temps executeStrConcat fun _ => [] := by
  refine .bind (safely_peek 1) fun left => .bind (safely_peek 0) fun right => ?_
  refine .bind (safely_onHeap_allocate (.allocateStringConcat left right) rfl ?_) fun id => ?_
  · simp [Operation.arguments]
  · exact .bind (safely_drop 2) fun _ => safely_pushLast (.inl List.mem_cons_self)

theorem safely_executeStrSub : Safely config temps executeStrSub fun _ => [] := by
  refine .bind (safely_peek 2) fun source => .bind (safely_peek 1) fun v => ?_
  refine .bind (safely_asInt64 v) fun lo => .bind (safely_peek 0) fun w => ?_
  refine .bind (safely_asInt64 w) fun hi => .bind (safely_asObject (v := source) (by simp)) fun id => ?_
  refine .bind (safely_query fun _ _ => rfl) fun length => .guard ?_
  refine .bind (safely_onHeap_allocate (.allocateStringSubstring source _ _) rfl ?_) fun id => ?_
  · simp [Operation.arguments]
  · exact .bind (safely_drop 3) fun _ => safely_pushLast (.inl List.mem_cons_self)

theorem safely_executeStrLt : Safely config temps executeStrLt fun _ => [] := by
  refine .bind safely_pop fun right => .bind safely_pop fun left => ?_
  refine .bind (safely_asObject List.mem_cons_self) fun leftId => ?_
  refine .bind (safely_query fun _ _ => rfl) fun leftBytes => ?_
  refine .bind (safely_asObject (v := right) (by simp)) fun rightId => ?_
  exact .bind (safely_query fun _ _ => rfl) fun rightBytes => safely_pushLast (.inr rfl)

theorem safely_executePrint : Safely config temps executePrint fun _ => [] := by
  refine .bind (safely_peek 0) fun v => .bind (safely_asObject List.mem_cons_self) fun id => ?_
  refine .bind (safely_query fun _ _ => rfl) fun bytes => .getting fun m => ?_
  refine .ite (.bind (K := fun _ => []) (safely_trapHere _) fun _ => ?_) ?_
  all_goals
    refine .bind (.modify_same (fun _ => rfl) fun _ => rfl) fun _ => ?_
    exact .weaken (safely_drop 1) fun v hv => nomatch hv

theorem safely_executeStrToI64 : Safely config temps executeStrToI64 fun _ => [] := by
  refine .bind safely_pop fun v => .bind (safely_asObject List.mem_cons_self) fun id => ?_
  refine .getting fun m => ?_
  split
  · exact .throw _
  · exact .throw _
  · exact .throw _
  · exact .throw _
  · split
    · exact safely_pushLast (.inr rfl)
    · exact safely_trapHere _

theorem safely_popInt64Pair : Safely config temps popInt64Pair fun _ => temps := by
  refine .bind safely_pop fun rhs => .bind safely_pop fun lhs => ?_
  refine .bind (safely_asInt64 rhs) fun _ => .bind (safely_asInt64 lhs) fun _ => ?_
  exact .pure fun v hv => .inl (by simp [hv])

theorem safely_executeI64Abs : Safely config temps executeI64Abs fun _ => [] := by
  refine .bind safely_pop fun v => .bind (safely_asInt64 v) fun i => ?_
  exact .ite (.bind (K := fun _ => []) (safely_trapHere _) fun _ => safely_pushLast (.inr rfl))
    (safely_pushLast (.inr rfl))

theorem safely_executeBuilderAppend : Safely config temps executeBuilderAppend fun _ => [] := by
  refine .bind (safely_peek 1) fun v => .bind (safely_asObject List.mem_cons_self) fun id => ?_
  refine .bind (safely_peek 0) fun source => ?_
  refine .bind (safely_onHeap_store (.builderAppend id source) rfl ?_) fun _ => safely_drop 2
  simp [Operation.arguments]

theorem safely_executeEphemeronValue (id : ObjectId) :
    Safely config temps (executeEphemeronValue id) fun _ => [] := by
  refine .bind (safely_loads (fun _ _ => rfl) fun h v hw hv =>
    namesCurrent_of_load hw (.ephemeronValue id) rfl hv) fun v => ?_
  split
  · exact safely_trapHere _
  · exact safely_pushLast (.inl List.mem_cons_self)

theorem safely_executeArrayLen : Safely config temps executeArrayLen fun _ => [] := by
  have hlength : ∀ {h : Heap} {x : Except HeapError ℕ} {v : Value} {message : String},
      (x >>= fun length => checkedLengthValue length message) = .ok v → h.NamesCurrent v := by
    intro h x v message hv
    obtain ⟨length, -, hv⟩ := bind_eq_ok.mp hv
    exact namesCurrent_checkedLengthValue hv
  refine safely_executeLoad (fun _ _ _ => rfl) fun id h v _ hv => ?_
  obtain ⟨found, -, hv⟩ := bind_eq_ok.mp hv
  dsimp only at hv
  split at hv
  · exact hlength hv
  · exact hlength hv

theorem safely_popLength (message : String) :
    Safely config temps (popLength message) fun result => result.1 :: temps := by
  refine .bind safely_pop fun init => .bind safely_pop fun length => ?_
  refine .bind (safely_asInt64 length) fun i => .bind (safely_requireIndex i message) fun n => ?_
  exact .pure fun v hv => .inl (by simpa using Or.inr hv)

theorem safely_popIndexedStore (message : String) :
    Safely config temps (popIndexedStore message) fun result =>
      [.object result.2.1, result.1] := by
  refine .bind safely_pop fun stored => .bind safely_pop fun indexValue => ?_
  refine .bind safely_pop fun receiver => .bind (safely_asInt64 indexValue) fun i => ?_
  refine .bind (safely_requireIndex i message) fun index => ?_
  refine .bind (safely_asObject List.mem_cons_self) fun id => ?_
  exact .pure fun v hv => .inl (by simp at hv ⊢; tauto)

theorem safely_executeAllocRecord : Safely config temps (executeAllocRecord module ins) fun _ => [] := by
  refine .bind (safely_requireEntry _ _ _) fun entry => .bind (safely_popMany _) fun fields => ?_
  exact safely_pushAllocated (.allocateRecord entry.1 fields entry.2.referenceMap) rfl
    (List.subset_append_left _ _)

/-- The receiver, and the value to store. -/
theorem safely_popRecord (stored : Bool) : Safely config temps (popRecord module ins stored)
    fun result => [.object result.1, result.2.2.getD .nil] := by
  refine .bind (safely_requireEntry _ _ _) fun entry => .bind (safely_requireEntry _ _ _) fun field => ?_
  have hrest : ∀ value : Option Value, Safely config (value.getD .nil :: temps) (do
      let receiver ← Vm.asObject (← pop)
      return (receiver, field.1, value) : VmM (ObjectId × ℕ × Option Value))
      fun result => [.object result.1, result.2.2.getD .nil] := by
    refine fun value => .bind safely_pop fun receiver => ?_
    refine .bind (safely_asObject List.mem_cons_self) fun id => .pure fun v hv => .inl ?_
    simp only [List.mem_cons, List.not_mem_nil, or_false] at hv ⊢
    tauto
  refine .ite (.bind (.map safely_pop) hrest) (.bind (.pure fun v hv => ?_) hrest)
  rcases List.mem_cons.mp hv with rfl | hv
  · exact .inr rfl
  · exact .inl hv

theorem safely_executeRecordGet : Safely config temps (executeRecordGet module ins) fun _ => [] := by
  refine .bind (safely_popRecord false) fun result => ?_
  exact .bind (safely_loads (fun _ _ => rfl) fun h v hw hv =>
    namesCurrent_of_load hw (.recordGet _ _) rfl hv) fun v => safely_pushLast (.inl List.mem_cons_self)

theorem safely_executeRecordSet : Safely config temps (executeRecordSet module ins) fun _ => [] := by
  refine .bind (safely_popRecord true) fun result => ?_
  refine safely_onHeap_store (.recordSet result.1 result.2.1 (result.2.2.getD .nil)) rfl ?_
  simp [Operation.arguments]

theorem safely_variantCase : Safely config temps (variantCase module ins) fun _ => temps :=
  .bind (safely_requireEntry _ _ _) fun _ => .bind (safely_requireEntry _ _ _) fun _ =>
    .pure fun _ hv => .inl hv

theorem safely_executeAllocVariant :
    Safely config temps (executeAllocVariant module ins) fun _ => [] := by
  refine .bind safely_variantCase fun found => .bind (safely_popMany _) fun fields => ?_
  exact safely_pushAllocated (.allocateVariant found.1 found.2.2.1 fields _) rfl
    (List.subset_append_left _ _)

theorem safely_executeVariantGet : Safely config temps (executeVariantGet module ins) fun _ => [] := by
  refine .bind safely_variantCase fun found => .bind (safely_requireEntry _ _ _) fun field => ?_
  refine .bind safely_pop fun receiver => .bind (safely_asObject List.mem_cons_self) fun id => ?_
  refine .bind (safely_query fun _ _ => rfl) fun tag => .guard ?_
  exact .bind (safely_loads (fun _ _ => rfl) fun h v hw hv =>
    namesCurrent_of_load hw (.variantGet _ _) rfl hv) fun v => safely_pushLast (.inl List.mem_cons_self)

theorem safely_executeLoadLocal : Safely config temps (executeLoadLocal ins) fun _ => [] := by
  refine safely_activeFrame fun frame => ?_
  cases hlocal : frame.locals[ins.operand.toNatClampNeg]? with
  | none => exact .throw _
  | some value =>
    refine safely_pushLast (.inl (List.mem_append_left _ (mem_frameCells.mpr (.inr (.inl ?_)))))
    exact List.mem_of_getElem? hlocal

theorem safely_executeStoreLocal : Safely config temps (executeStoreLocal ins) fun _ => [] := by
  refine .bind safely_pop fun value => safely_activeFrame fun frame => .guard ?_
  refine .forget (safely_modifyFrame fun frame' v hv => ?_)
  rcases mem_frameCells.mp hv with hv | hv | hv
  · exact .inr (.inl (mem_frameCells.mpr (.inl hv)))
  · rcases List.mem_or_eq_of_mem_set hv with hv | rfl
    · exact .inr (.inl (mem_frameCells.mpr (.inr (.inl hv))))
    · exact .inl (List.mem_append_right _ List.mem_cons_self)
  · exact .inr (.inl (mem_frameCells.mpr (.inr (.inr hv))))

theorem safely_executeAllocClosure :
    Safely config temps (executeAllocClosure module ins) fun _ => [] := by
  refine .bind (safely_requireEntry _ _ _) fun entry => .bind (safely_popMany _) fun captures => ?_
  exact safely_pushAllocated (.allocateClosure entry.1 entry.2.functionIndex captures
    entry.2.captureMap) rfl (List.subset_append_left _ _)

theorem safely_executeLoadCapture : Safely config temps (executeLoadCapture ins) fun _ => [] := by
  refine safely_activeFrame fun frame => ?_
  cases hclosure : frame.closure with
  | none => exact .throw _
  | some closure =>
    have hmem : closure ∈ frame.rootCells ++ temps :=
      List.mem_append_left _ (mem_frameCells.mpr (.inr (.inr hclosure)))
    refine .bind (safely_asObject hmem) fun id => ?_
    exact .bind (safely_loads (fun _ _ => rfl) fun h v hw hv =>
      namesCurrent_of_load hw (.closureCapture _ _) rfl hv) fun v =>
        safely_pushLast (.inl List.mem_cons_self)

/-- A part that pushes a scalar last. -/
theorem safely_pushScalar {v : Value} (hv : v.isObject = false) :
    Safely config temps (push v) fun _ => [] := safely_pushLast (.inr hv)

theorem safely_executeStraightLine :
    Safely config temps (executeStraightLine module ins) fun _ => [] := by
  have hnone : ∀ {part : VmM Unit}, Safely config [] part (fun _ => []) →
      Safely config temps part fun _ => [] := fun hpart => .weaken hpart fun v hv => nomatch hv
  unfold executeStraightLine
  split
  · exact safely_pushScalar rfl
  · refine .bind (safely_requireEntry _ _ _) fun entry => ?_
    exact safely_pushAllocated (.allocateString entry.2) rfl (List.nil_subset _)
  · exact safely_executeLoad (fun _ _ _ => rfl) fun _ _ _ _ hv => namesCurrent_of_map (fun _ => rfl) hv
  · refine .bind safely_pop fun right => .bind safely_pop fun left => ?_
    refine .bind (safely_asObject List.mem_cons_self) fun leftId => ?_
    refine .bind (safely_asObject (v := right) (by simp)) fun rightId => ?_
    exact .bind (safely_query fun _ _ => rfl) fun _ => safely_pushScalar rfl
  · exact safely_executeStrConcat
  · refine .bind (safely_peek 0) fun source => ?_
    refine .bind (safely_onHeap_allocate (.internString source) rfl ?_) fun id => ?_
    · simp [Operation.arguments]
    · exact .bind (safely_drop 1) fun _ => safely_pushLast (.inl List.mem_cons_self)
  · exact safely_executeStrSub
  · exact safely_executeStrLt
  · exact safely_executeIndexedLoad (fun _ _ _ _ => rfl) fun _ _ _ _ _ hv =>
      namesCurrent_of_map (fun _ => rfl) hv
  · exact safely_executePrint
  · refine .bind safely_pop fun v => .bind (safely_asInt64 v) fun i => ?_
    exact safely_pushAllocated (.allocateString _) rfl (List.nil_subset _)
  · exact safely_executeStrToI64
  · refine .bind safely_pop fun v => .bind (safely_asBool v) fun b => ?_
    exact safely_pushAllocated (.allocateString _) rfl (List.nil_subset _)
  · exact safely_pushScalar rfl
  · refine .bind safely_pop fun target => ?_
    exact safely_pushAllocated (.allocateWeak target) rfl (by simp [Operation.arguments])
  · exact safely_executeLoad (fun _ _ _ => rfl) fun _ _ _ hw hv =>
      namesCurrent_of_load hw (.weakGet _) rfl hv
  · refine .bind safely_pop fun value => .bind safely_pop fun key => ?_
    refine .bind (safely_requireEntry _ _ _) fun entry => ?_
    exact safely_pushAllocated (.allocateEphemeron key value entry.2.valueIsRef) rfl
      (by simp [Operation.arguments])
  · exact safely_executeLoad (fun _ _ _ => rfl) fun _ _ _ hw hv =>
      namesCurrent_of_load hw (.ephemeronKey _) rfl hv
  · refine .bind safely_pop fun v => .bind (safely_asObject List.mem_cons_self) fun id => ?_
    exact safely_executeEphemeronValue id
  · refine .bind safely_pop fun value => .bind safely_pop fun receiver => ?_
    refine .bind (safely_asObject List.mem_cons_self) fun id => ?_
    exact safely_onHeap_store (.ephemeronSetValue id value) rfl (by simp [Operation.arguments])
  · exact .bind safely_pop fun v => safely_pushScalar rfl
  · exact .bind safely_popInt64Pair fun _ => safely_pushScalar rfl
  · exact safely_executeI64Abs
  · exact safely_pushAllocated .allocateBuilder rfl (List.nil_subset _)
  · exact safely_executeBuilderAppend
  · exact safely_executeLoad (fun _ _ _ => rfl) fun _ _ _ _ hv => namesCurrent_of_map (fun _ => rfl) hv
  · refine .bind (safely_peek 0) fun builder => ?_
    refine .bind (safely_onHeap_allocate (.builderToString builder) rfl ?_) fun id => ?_
    · simp [Operation.arguments]
    · exact .bind (safely_drop 1) fun _ => safely_pushLast (.inl List.mem_cons_self)
  · refine .bind (safely_peek 0) fun v => .bind (safely_asObject List.mem_cons_self) fun id => ?_
    refine .bind (safely_onHeap_store (.builderClear id) rfl ?_) fun _ => safely_drop 1
    simp [Operation.arguments]
  · exact .bind safely_popInt64Pair fun _ => safely_pushScalar rfl
  · refine .bind safely_pop fun right => .bind safely_pop fun left => ?_
    exact safely_pushAllocated (.allocatePair left right) rfl (by simp [Operation.arguments])
  · exact safely_executeAllocRecord
  · exact safely_executeRecordGet
  · exact safely_executeRecordSet
  · exact safely_executeAllocVariant
  · exact safely_executeLoad (fun _ _ _ => rfl) fun _ _ _ _ hv => namesCurrent_of_map (fun _ => rfl) hv
  · exact safely_executeVariantGet
  · refine .bind (safely_popLength _) fun result => .bind (safely_asInt64 _) fun i => ?_
    exact safely_pushAllocated (.allocateScalarArray result.2 i) rfl (List.nil_subset _)
  · exact safely_executeIndexedLoad (fun _ _ _ _ => rfl) fun _ _ _ _ _ hv =>
      namesCurrent_of_map (fun _ => rfl) hv
  · refine .bind (safely_popIndexedStore _) fun result => .bind (safely_asInt64 _) fun i => ?_
    exact safely_onHeap_store (.arraySet result.2.1 result.2.2 i) rfl (by simp [Operation.arguments])
  · exact safely_executeArrayLen
  · refine .bind (safely_popLength _) fun result => ?_
    exact safely_pushAllocated (.allocateRefArray result.2 result.1) rfl (by simp [Operation.arguments])
  · exact safely_executeIndexedLoad (fun _ _ _ _ => rfl) fun _ _ _ _ hw hv =>
      namesCurrent_of_load hw (.refArrayGet _ _) rfl hv
  · refine .bind (safely_popIndexedStore _) fun result => ?_
    exact safely_onHeap_store (.refArraySet result.2.1 result.2.2 result.1) rfl
      (by simp [Operation.arguments])
  · refine .bind (safely_requireEntry _ _ _) fun entry => ?_
    exact safely_pushAllocated (.allocateMap entry.1 entry.2.keyIsRef entry.2.valueIsRef) rfl
      (List.nil_subset _)
  · refine .bind safely_pop fun stored => .bind safely_pop fun key => .bind safely_pop fun receiver => ?_
    refine .bind (safely_asObject List.mem_cons_self) fun id => ?_
    exact safely_onHeap_store (.mapSet id key stored) rfl (by simp [Operation.arguments])
  · refine .bind safely_pop fun key => safely_executeLoad (fun id h cells => ?_) fun _ _ _ hw hv => ?_
    · unfold mapGet
      rw [findMapEntry_rootCells]
      rfl
    · exact namesCurrent_of_load hw (.mapGet _ key) rfl hv
  · refine .bind safely_pop fun key => safely_executeLoad (fun id h cells => ?_) fun _ _ _ _ hv => ?_
    · unfold mapHas
      rw [findMapEntry_rootCells]
    · exact namesCurrent_of_map (fun _ => rfl) hv
  · refine safely_executeLoad (fun _ _ _ => rfl) fun _ _ _ _ hv => ?_
    obtain ⟨_, -, hv⟩ := bind_eq_ok.mp hv
    exact namesCurrent_checkedLengthValue hv
  · exact safely_executeIndexedLoad (fun _ _ _ _ => rfl) fun _ _ _ _ hw hv =>
      namesCurrent_of_load hw (.mapKeyAt _ _) rfl hv
  · exact safely_executeIndexedLoad (fun _ _ _ _ => rfl) fun _ _ _ _ hw hv =>
      namesCurrent_of_load hw (.mapValueAt _ _) rfl hv
  · exact safely_executeLoad (fun _ _ _ => rfl) fun _ _ _ hw hv =>
      namesCurrent_of_load hw (.left _) rfl hv
  · exact safely_executeLoad (fun _ _ _ => rfl) fun _ _ _ hw hv =>
      namesCurrent_of_load hw (.right _) rfl hv
  · refine .bind safely_pop fun value => .bind safely_pop fun receiver => ?_
    refine .bind (safely_asObject List.mem_cons_self) fun id => ?_
    exact safely_onHeap_store (.setField id .left value) rfl (by simp [Operation.arguments])
  · refine .bind safely_pop fun value => .bind safely_pop fun receiver => ?_
    refine .bind (safely_asObject List.mem_cons_self) fun id => ?_
    exact safely_onHeap_store (.setField id .right value) rfl (by simp [Operation.arguments])
  · exact safely_executeLoadLocal
  · exact safely_executeStoreLocal
  · exact safely_collectWith rfl
  · exact safely_executeAllocClosure
  · exact safely_executeLoadCapture
  all_goals exact .pure fun v hv => nomatch hv

/-! ## Control flow -/

theorem safely_requireTarget : Safely config temps (requireTarget function ins) fun _ => temps :=
  .bind (safely_requireEntry _ _ _) fun _ => .pure fun _ hv => .inl hv

theorem safely_jump (target : ℕ) :
    Safely config temps (modifyFrame fun frame => { frame with pc := target }) fun _ => temps :=
  safely_modifyFrame fun _ _ hv => .inr (.inl hv)

theorem safely_executeJumpIfFalse :
    Safely config temps (executeJumpIfFalse function ins) fun _ => [] := by
  refine .bind safely_pop fun v => .bind (safely_asBool v) fun b => .ite (.forget safely_advance) ?_
  exact .forget (.bind safely_requireTarget fun target => safely_jump target)

/-- The cells of a new frame are the arguments, the closure and nil. -/
theorem safely_pushFrame {arguments : List Value} {closure : Option Value} (functionIndex : ℕ)
    (harguments : arguments ⊆ temps) (hclosure : closure.toList ⊆ temps) :
    Safely config temps (pushFrame module functionIndex arguments closure) fun _ => [] := by
  refine .getting fun m => .getting fun m' => .guard ?_
  dsimp only
  split
  · exact .throw _
  · next function hfunction =>
    refine .guard (.guard (.modify (fun _ => rfl) fun m v hv => ?_))
    rcases hv with hv | hv
    · cases hv
    rcases mem_rootCells.mp hv with ⟨frame, hframe, hcell⟩ | hpending
    · rcases List.mem_cons.mp hframe with rfl | hframe
      · rcases mem_frameCells.mp hcell with hv | hv | hv
        · cases hv
        · rcases List.mem_append.mp hv with hv | hv
          · exact .inl (harguments hv)
          · rw [List.eq_of_mem_replicate hv]
            exact .inr (.inr rfl)
        · exact .inl (hclosure (Option.mem_toList.mpr hv))
      · exact .inr (.inl (mem_rootCells.mpr (.inl ⟨frame, hframe, hcell⟩)))
    · exact .inr (.inl (mem_rootCells.mpr (.inr hpending)))

theorem safely_executeCall : Safely config temps (executeCall module ins) fun _ => [] := by
  refine .bind (safely_requireEntry _ _ _) fun entry => .bind (safely_popMany _) fun arguments => ?_
  refine .bind safely_advance fun _ => ?_
  exact safely_pushFrame _ (List.subset_append_left _ _) (List.nil_subset _)

theorem safely_executeCallClosure : Safely config temps (executeCallClosure module) fun _ => [] := by
  refine .bind safely_pop fun closure => .bind (safely_asObject List.mem_cons_self) fun id => ?_
  refine .bind (safely_query fun _ _ => rfl) fun index => .bind (safely_requireFunction index) fun _ => ?_
  refine .bind (safely_popMany _) fun arguments => .bind safely_advance fun _ => ?_
  refine safely_pushFrame _ (List.subset_append_left _ _) ?_
  simp

theorem safely_executeTailCall : Safely config temps (executeTailCall module ins) fun _ => [] := by
  refine .bind (safely_requireEntry _ _ _) fun entry => .bind (safely_requireFunction _) fun f => ?_
  refine .bind (safely_popMany _) fun arguments => .forget (safely_modifyFrame fun frame v hv => ?_)
  rcases mem_frameCells.mp hv with hv | hv | hv
  · exact .inr (.inl (mem_frameCells.mpr (.inl hv)))
  · rcases List.mem_append.mp hv with hv | hv
    · exact .inl (List.mem_append_left _ hv)
    · rw [List.eq_of_mem_replicate hv]
      exact .inr (.inr rfl)
  · cases hv

/-- A frame leaves. -/
theorem safely_popFrame :
    Safely config temps (modify fun m : Machine => { m with frames := m.frames.tail }) fun _ => temps := by
  refine .modify (fun _ => rfl) fun m v hv => ?_
  rcases hv with hv | hv
  · exact .inl hv
  · rcases mem_rootCells.mp hv with ⟨frame, hframe, hcell⟩ | hpending
    · exact .inr (.inl (mem_rootCells.mpr (.inl ⟨frame, List.mem_of_mem_tail hframe, hcell⟩)))
    · exact .inr (.inl (mem_rootCells.mpr (.inr hpending)))

/-- A conditional call for its effect, before the rest of a part. -/
theorem safely_collectIf {c : Prop} [Decidable c] {op : Operation} {rest : Unit → VmM α}
    {K : α → List Value} (harguments : op.arguments = []) (hrest : Safely config [] (rest ()) K) :
    Safely config temps (if c then collectWith op >>= rest else rest ()) K :=
  .ite (.bind (safely_collectWith harguments) fun _ => hrest) (.weaken hrest fun _ hv => nomatch hv)

theorem safely_executeReturn : Safely config temps executeReturn fun result => result.toList := by
  have hreturn : Safely config [] (do
      let result ← pop
      modify fun m : Machine => { m with frames := m.frames.tail }
      if (← get).frames.isEmpty then return some result
      push result
      return none : VmM (Option Value)) fun result => result.toList := by
    refine .bind safely_pop fun result => .bind safely_popFrame fun _ => .getting fun m => .ite ?_ ?_
    · exact .pure fun v hv => .inl hv
    · exact .bind (safely_pushLast (.inl List.mem_cons_self)) fun _ => .pure fun v hv => nomatch hv
  have hcompact : Safely config [] (do
      if (← get).heap.incrementalCompactionActive then collectWith .finishIncrementalCompaction
      let result ← pop
      modify fun m : Machine => { m with frames := m.frames.tail }
      if (← get).frames.isEmpty then return some result
      push result
      return none : VmM (Option Value)) fun result => result.toList :=
    .getting fun m => safely_collectIf rfl hreturn
  refine .getting fun m => .getting fun m' => .ite (.ite ?_ ?_) ?_
  · exact .bind (safely_collectWith rfl) fun _ => hcompact
  · exact .bind (safely_collectWith rfl) fun _ => hcompact
  · exact .weaken hcompact fun _ hv => nomatch hv

/-! ## Collections at instruction boundaries -/

theorem safely_markAtBoundary : Safely config [] markAtBoundary fun _ => [] := by
  have hfinish : Safely config [] (do
      if markingQuiescent (← get).heap then
        if (← get).gcStress.incrementalCompactStepBudgets.isEmpty then
          collectWith .finishIncrementalMarking
        else collectWith .finishIncrementalMarkingToIncrementalCompaction : VmM Unit) fun _ => [] :=
    .getting fun m => .ite (.getting fun m' => .ite (safely_collectWith rfl) (safely_collectWith rfl))
      (.pure fun _ hv => nomatch hv)
  refine .getting fun m => .getting fun m' => ?_
  have hrest : Safely config [] (do
      let budget := nextBudget m.gcStress.incrementalMarkStepBudgets (← get).incrementalBudgetCursor
      modify fun m => { m with incrementalBudgetCursor := m.incrementalBudgetCursor + 1 }
      collectWith (.incrementalMarkStep budget)
      if markingQuiescent (← get).heap then
        if m.gcStress.incrementalCompactStepBudgets.isEmpty then collectWith .finishIncrementalMarking
        else collectWith .finishIncrementalMarkingToIncrementalCompaction : VmM Unit) fun _ => [] := by
    refine .getting fun m₁ => .bind (.modify_same (fun _ => rfl) fun _ => rfl) fun _ => ?_
    refine .bind (safely_collectWith rfl) fun _ => .getting fun m₂ => .ite (.ite ?_ ?_) ?_
    · exact safely_collectWith rfl
    · exact safely_collectWith rfl
    · exact .pure fun _ hv => nomatch hv
  exact safely_collectIf rfl hrest

theorem safely_compactAtBoundary : Safely config [] compactAtBoundary fun _ => [] := by
  refine .getting fun m => .getting fun m' => ?_
  have hrest : Safely config [] (do
      let budget :=
        nextBudget m.gcStress.incrementalCompactStepBudgets (← get).incrementalCompactionBudgetCursor
      modify fun m => { m with
        incrementalCompactionBudgetCursor := m.incrementalCompactionBudgetCursor + 1 }
      collectWith (.incrementalCompactStep budget)
      if compactionQuiescent (← get).heap then
        collectWith .finishIncrementalCompaction : VmM Unit) fun _ => [] := by
    refine .getting fun m₁ => .bind (.modify_same (fun _ => rfl) fun _ => rfl) fun _ => ?_
    refine .bind (safely_collectWith rfl) fun _ => .getting fun m₂ => .ite ?_ ?_
    · exact safely_collectWith rfl
    · exact .pure fun _ hv => nomatch hv
  exact safely_collectIf rfl hrest

theorem safely_collectAtInstructionBoundaryIfNeeded :
    Safely config [] collectAtInstructionBoundaryIfNeeded fun _ => [] := by
  refine .getting fun m => .getting fun m' => ?_
  have hincremental : Safely config [] (do
      if !m.gcStress.incrementalMarkStepBudgets.isEmpty &&
          (!!m.gcStress.incrementalCompactStepBudgets.isEmpty ||
            !(← get).heap.incrementalCompactionActive) then markAtBoundary
      else if !m.gcStress.incrementalCompactStepBudgets.isEmpty then
        compactAtBoundary : VmM Unit) fun _ => [] := by
    refine .getting fun m₁ => .ite safely_markAtBoundary (.ite safely_compactAtBoundary ?_)
    exact .pure fun _ hv => nomatch hv
  exact safely_collectIf rfl (safely_collectIf rfl hincremental)

/-! ## Exceptions -/

theorem safely_pendingLayout : Safely config temps pendingLayout fun _ => temps := by
  intro m hs
  unfold pendingLayout
  rw [wp_bind, wp_get]
  cases hpending : m.pendingException with
  | none => exact hs.driven
  | some exception =>
    -- the exception is a root, and is at hand while its layout is read
    have hs' : m.Safe config (exception :: temps) := hs.change rfl fun v hv => by
      rcases hv with hv | hv
      · rcases List.mem_cons.mp hv with rfl | hv
        · exact .inr (.inl (mem_rootCells.mpr (.inr hpending)))
        · exact .inl hv
      · exact .inr (.inl hv)
    have hread : Safely config (exception :: temps) (do
        let id ← Vm.asObject exception
        onHeapQuery (·.variantLayoutIndex id)) fun _ => temps := by
      refine .bind (safely_asObject List.mem_cons_self) fun id => ?_
      exact safely_onHeapQuery (fun _ _ => rfl) fun _ _ _ _ v hv => .inl (by simp [hv])
    exact hread m hs'

theorem safely_enterHandler (handler : ExceptionHandler) :
    Safely config temps (enterHandler handler) fun _ => temps := by
  intro m hs
  unfold enterHandler
  rw [wp_bind, wp_get, wp_bind]
  have hs' : m.Safe config (m.pendingException.toList ++ temps) := hs.change rfl fun v hv => by
    rcases hv with hv | hv
    · rcases List.mem_append.mp hv with hv | hv
      · exact .inr (.inl (mem_rootCells.mpr (.inr (Option.mem_toList.mp hv))))
      · exact .inl hv
    · exact .inr (.inl hv)
  have hframe : Safely config (m.pendingException.toList ++ temps) (modifyFrame fun frame =>
      { frame with stack := m.pendingException.toList, pc := handler.target })
      fun _ => m.pendingException.toList ++ temps := by
    refine safely_modifyFrame fun frame v hv => ?_
    rcases mem_frameCells.mp hv with hv | hv
    · exact .inl (List.mem_append_left _ hv)
    · exact .inr (.inl (mem_frameCells.mpr (.inr hv)))
  have hclear : Safely config (m.pendingException.toList ++ temps)
      (modify fun m : Machine => { m with pendingException := none }) fun _ => temps := by
    refine .modify (fun _ => rfl) fun m' v hv => ?_
    rcases hv with hv | hv
    · exact .inl (List.mem_append_right _ hv)
    · rcases mem_rootCells.mp hv with hframe | hnone
      · exact .inr (.inl (mem_rootCells.mpr (.inl hframe)))
      · cases hnone
  exact wp_mono (hframe m hs') (fun _ m' hs' => hclear m' hs') fun _ _ he => he

theorem safely_unwind (rounds : ℕ) (initial : Bool) :
    Safely config [] (unwind module rounds initial) fun _ => [] := by
  induction rounds generalizing initial with
  | zero => exact .pure fun _ hv => nomatch hv
  | succ rounds ih =>
    refine .getting fun m => ?_
    dsimp only
    split
    · exact .pure fun _ hv => nomatch hv
    · refine .bind (safely_requireFunction _) fun function => .bind safely_pendingLayout fun layout => ?_
      split
      · exact .bind (safely_enterHandler _) fun _ => .pure fun _ hv => nomatch hv
      · refine .getting fun m' => safely_collectIf rfl ?_
        exact .bind safely_popFrame fun _ => ih false

theorem safely_executeThrow : Safely config temps (executeThrow module) fun _ => [] := by
  refine .bind safely_pop fun exception => .bind (K := fun _ => []) ?_ fun _ => ?_
  · refine .modify (fun _ => rfl) fun m v hv => ?_
    rcases hv with hv | hv
    · cases hv
    · rcases mem_rootCells.mp hv with hframe | hpending
      · exact .inr (.inl (mem_rootCells.mpr (.inl hframe)))
      · cases hpending
        exact .inl List.mem_cons_self
  · have hunwind : ∀ (rounds : ℕ) {temps : List Value},
        Safely config temps (unwind module rounds true) fun _ => [] :=
      fun rounds _ => .weaken (safely_unwind rounds true) fun _ hv => nomatch hv
    refine safely_activeFrame fun frame => .getting fun m => .getting fun m' => ?_
    refine .bind (hunwind _) fun handled => .ite ?_ ?_
    · refine .bind safely_pendingLayout fun layout => .bind (K := fun _ => []) ?_ fun _ => .throw _
      refine .modify (fun _ => rfl) fun m v hv => ?_
      rcases hv with hv | hv
      · cases hv
      · rcases mem_rootCells.mp hv with hframe | hnone
        · exact .inr (.inl (mem_rootCells.mpr (.inl hframe)))
        · cases hnone
    · exact .pure fun _ hv => nomatch hv

/-! ## Rounds -/

theorem safely_executeInstruction :
    Safely config [] (executeInstruction module function ins) fun result => result.toList := by
  unfold executeInstruction
  split
  · exact .bind safely_requireTarget fun target => .bind (safely_jump target) fun _ => .pure fun _ hv => nomatch hv
  · exact .bind safely_executeJumpIfFalse fun _ => .pure fun _ hv => nomatch hv
  · exact .bind safely_executeThrow fun _ => .pure fun _ hv => nomatch hv
  · exact .bind safely_executeCall fun _ => .pure fun _ hv => nomatch hv
  · exact .bind safely_executeCallClosure fun _ => .pure fun _ hv => nomatch hv
  · exact .bind safely_executeTailCall fun _ => .pure fun _ hv => nomatch hv
  · exact safely_executeReturn
  · refine .bind safely_executeStraightLine fun _ => .bind safely_advance fun _ => ?_
    exact .pure fun _ hv => nomatch hv

theorem safely_step : Safely config [] (step module) fun result => result.toList := by
  refine .getting fun m => ?_
  dsimp only
  split
  · exact .pure fun v hv => .inr (by rw [List.mem_singleton.mp hv]; rfl)
  · refine .bind (safely_requireFunction _) fun function => ?_
    split
    · exact .throw _
    · next ins _ =>
      have hrest : Safely config [] (do
          collectAtInstructionBoundaryIfNeeded
          let result ← executeInstruction module function ins
          modify fun m : Machine => { m with instructionsExecuted := m.instructionsExecuted + 1 }
          return result : VmM (Option Value)) fun result => result.toList := by
        refine .bind safely_collectAtInstructionBoundaryIfNeeded fun _ => ?_
        refine .bind safely_executeInstruction fun result => ?_
        exact .bind (.modify_same (fun _ => rfl) fun _ => rfl) fun _ => .pure fun v hv => .inl hv
      refine .ite (.bind (safely_modifyFrame fun frame v hv => ?_) fun _ => hrest) hrest
      rcases mem_frameCells.mp hv with hv | hv | hv
      · exact .inr (.inl (mem_frameCells.mpr (.inl hv)))
      · obtain ⟨_, -, rfl⟩ := List.mem_map.mp hv
        exact .inr (.inr rfl)
      · cases hv

/-! ## Runs -/

section Runs

variable {m : Machine}

/-- Outside incremental compaction the roots of a driven heap are current. -/
theorem safe_of_settled (hd : m.rootedHeap.Driven config) (hs : m.heap.Settled) :
    m.Safe config [] where
  driven := hd
  current hu v hv := by
    have hroot : v ∈ m.rootCells := hv.resolve_left List.not_mem_nil
    exact hd.settled_roots hs (unspent_rootedHeap.mpr hu) v hroot

theorem safe_of_spent (hd : m.rootedHeap.Driven config) (hspent : ¬m.heap.Unspent) :
    m.Safe config [] := ⟨hd, fun hu => absurd hu hspent⟩

/-- The end of a phase leaves a machine with current roots, from any roots that resolve. -/
theorem wp_collectWith_settles {op : Operation} (hop : wp op.run
      (fun _ h' => h'.Driven config ∧ h'.Cells m.rootedHeap.rootCells.length ∧ h'.Settled)
      (fun _ h' => h'.Driven config ∧ h'.Cells m.rootedHeap.rootCells.length ∧ ¬h'.Unspent)
      m.rootedHeap) :
    wp (collectWith op) (fun _ m' => m'.rootedHeap.Driven config ∧ m'.heap.Settled)
      (fun _ m' => m'.Safe config []) m := by
  unfold collectWith
  rw [wp_bind]
  refine wp_mono (wp_onHeap hop) ?_ ?_
  · rintro id m' ⟨h', rfl, hdriven, hcells, hsettled⟩
    rw [wp_pure, rootedHeap_withHeap hcells]
    exact ⟨hdriven, hsettled⟩
  · rintro e m' ⟨e', h', rfl, hdriven, hcells, hspent⟩
    refine safe_of_spent ?_ hspent
    rw [rootedHeap_withHeap hcells]
    exact hdriven

/-- After an exception the phases are finished before it leaves the machine, so that its roots are
current again. -/
theorem wp_endTrapped (hd : m.rootedHeap.Driven config) (functionIndex pc : ℕ) (error : VmError) :
    wp (endTrapped module functionIndex pc error : VmM α) (fun _ _ => False)
      (fun _ m' => m'.Safe config []) m := by
  have hcompact : ∀ m : Machine, m.rootedHeap.Driven config → m.heap.incrementalMarkingActive = false →
      wp (do
        if (← get).heap.incrementalCompactionActive then collectWith .finishIncrementalCompaction
        throw error : VmM α) (fun _ _ => False) (fun _ m' => m'.Safe config []) m := by
    intro m hd _
    rw [wp_bind, wp_get]
    refine wp_ite (fun hactive => ?_) fun hinactive => ?_
    · rw [wp_bind]
      refine wp_mono (wp_collectWith_settles (hd.wp_finishIncrementalCompaction hactive)) ?_
        fun _ _ hs => hs
      exact fun _ m' hpost => safe_of_settled hpost.1 hpost.2
    · exact safe_of_settled hd ((Bool.not_eq_true _).mp hinactive)
  have hmark : ∀ m : Machine, m.rootedHeap.Driven config →
      wp (do
        if (← get).heap.incrementalMarkingActive then collectWith .finishIncrementalMarking
        if (← get).heap.incrementalCompactionActive then collectWith .finishIncrementalCompaction
        throw error : VmM α) (fun _ _ => False) (fun _ m' => m'.Safe config []) m := by
    intro m hd
    rw [wp_bind, wp_get]
    refine wp_ite (fun hactive => ?_) fun hinactive => ?_
    · rw [wp_bind]
      refine wp_mono (wp_collectWith_settles (hd.wp_finishIncrementalMarking hactive)) ?_
        fun _ _ hs => hs
      intro _ m' hpost
      rw [wp_bind, wp_get]
      refine wp_ite (fun hcompacting => ?_) fun _ => safe_of_settled hpost.1 hpost.2
      exact absurd hcompacting (by rw [hpost.2]; exact Bool.false_ne_true)
    · exact hcompact m hd ((Bool.not_eq_true _).mp hinactive)
  unfold endTrapped
  rw [wp_bind, wp_get]
  refine wp_ite (fun _ => ?_) fun _ => hmark m hd
  rw [wp_bind, wp_modify]
  exact hmark _ hd

/-- A part of a run leaves a safe machine behind, whether it returns or throws. -/
def Guards (config : StressConfig) (part : VmM α) (K : α → List Value) : Prop :=
  ∀ m, m.Safe config [] → wp part (fun a m' => m'.Safe config (K a)) (fun _ m' => m'.Safe config []) m

theorem guards_guarded {part : VmM α} {K : α → List Value} (hpart : Safely config [] part K) :
    Guards config (guarded module part) K := by
  intro m hs
  have hwp := hpart m hs
  unfold wp guarded at *
  cases hm : part m with
  | ok a m' =>
    rw [hm] at hwp
    exact hwp
  | error e m' =>
    rw [hm] at hwp
    exact wp_mono (wp_endTrapped hwp _ _ e) (fun _ _ hno => hno.elim) fun _ _ hs' => hs'

theorem guards_rounds (n : ℕ) : Guards config (rounds module n) fun result => result.toList := by
  induction n with
  | zero => exact fun m hs => hs
  | succ n ih =>
    intro m hs
    unfold rounds
    rw [wp_bind]
    refine wp_mono (guards_guarded safely_step m hs) (fun result m' hs' => ?_) fun _ _ he => he
    cases result with
    | some v => exact hs'
    | none => exact ih m' hs'

/-- The phases that another run may have left active are finished first. -/
theorem guards_startProgram : Guards config startProgram fun _ => [] := by
  have hreset : ∀ m : Machine, m.Safe config [] → Machine.Safe config [] { m with
      frames := []
      pendingException := none
      lastTrapTrace := none
      instructionsExecuted := 0
      incrementalBudgetCursor := 0
      incrementalCompactionBudgetCursor := 0 } := by
    refine fun m hs => Machine.Safe.change hs (by rfl) fun v hv => ?_
    have hroot := hv.resolve_left List.not_mem_nil
    rcases mem_rootCells.mp hroot with ⟨_, hframe, -⟩ | hpending
    · cases hframe
    · cases hpending
  have hmark : ∀ m : Machine, m.Safe config [] → wp (do
      if (← get).heap.incrementalMarkingActive then collectWith .finishIncrementalMarking
      modify fun m : Machine => { m with
        frames := []
        pendingException := none
        lastTrapTrace := none
        instructionsExecuted := 0
        incrementalBudgetCursor := 0
        incrementalCompactionBudgetCursor := 0 } : VmM Unit)
      (fun _ m' => m'.Safe config []) (fun _ m' => m'.Safe config []) m := by
    intro m hs
    rw [wp_bind, wp_get]
    refine wp_ite (fun hactive => ?_) fun _ => hreset m hs
    rw [wp_bind]
    refine wp_mono (wp_collectWith_settles (hs.driven.wp_finishIncrementalMarking hactive)) ?_
      fun _ _ hs => hs
    exact fun _ m' hpost => hreset m' (safe_of_settled hpost.1 hpost.2)
  intro m hs
  have hs' : Machine.Safe config [] { m with output := [], lastTrapTrace := none } :=
    Machine.Safe.change hs (by rfl) fun _ hv => hv.imp_right .inl
  unfold startProgram
  rw [wp_bind, wp_modify, wp_bind, wp_get]
  refine wp_ite (fun hactive => ?_) fun _ => hmark _ hs'
  rw [wp_bind]
  refine wp_mono (wp_collectWith_settles (hs'.driven.wp_finishIncrementalCompaction hactive)) ?_
    fun _ _ hs => hs
  exact fun _ m' hpost => hmark m' (safe_of_settled hpost.1 hpost.2)

theorem guards_execute (n : ℕ) : Guards config (execute module n) fun result => result.toList := by
  intro m hs
  have hpush : Safely config [] (pushFrame module module.entryFunction [] none) fun _ => [] :=
    safely_pushFrame _ (List.nil_subset _) (List.nil_subset _)
  unfold execute
  rw [wp_bind]
  refine wp_mono (guards_startProgram m hs) (fun _ m₁ hs₁ => ?_) fun _ _ he => he
  rw [wp_bind]
  exact wp_mono (guards_guarded hpush m₁ hs₁) (fun _ m₂ hs₂ => guards_rounds n m₂ hs₂)
    fun _ _ he => he

/-- The machine after the first rounds of a program, whether it has ended, trapped or runs on. -/
def Machine.after (m : Machine) (program : Module × ℕ) : Machine :=
  match execute program.1 program.2 m with
  | .ok _ m' => m'
  | .error _ m' => m'

theorem Machine.Safe.after (hs : m.Safe config []) (program : Module × ℕ) :
    (m.after program).Safe config [] := by
  have hwp : wp (execute program.1 program.2) _ _ m := guards_execute program.2 m hs
  unfold Machine.after
  unfold wp at hwp
  split
  · next hm =>
    rw [hm] at hwp
    exact Machine.Safe.mono hwp fun _ hv => nomatch hv
  · next hm =>
    rw [hm] at hwp
    exact hwp

theorem safe_initial (config : StressConfig) (gcStress : StressSchedule) :
    (Machine.initial config gcStress).Safe config [] where
  driven := driven_empty config
  current _ _ hv := nomatch hv.resolve_left List.not_mem_nil

/-- However programs run one after another on a machine, and whatever collections the schedule asks
for, the heap is one that a mutator has driven with current identifiers; and as long as it stays
within its limits, it keeps the representation invariant and every cell of the machine is the
current identifier of an object, or no reference. -/
theorem runs_safe (config : StressConfig) (gcStress : StressSchedule)
    (programs : List (Module × ℕ)) :
    let m := programs.foldl Machine.after (Machine.initial config gcStress)
    m.rootedHeap.Driven config ∧
      (m.heap.Unspent → m.rootedHeap.Wf ∧ ∀ v ∈ m.rootCells, m.heap.NamesCurrent v) := by
  have hsafe : ∀ (programs : List (Module × ℕ)) (m : Machine), m.Safe config [] →
      (programs.foldl Machine.after m).Safe config [] := by
    intro programs
    induction programs with
    | nil => exact fun m hs => hs
    | cons program programs ih => exact fun m hs => ih _ (hs.after program)
  have hs := hsafe programs _ (safe_initial config gcStress)
  refine ⟨hs.driven, fun hu => ⟨hs.driven.wf (unspent_rootedHeap.mpr hu), fun v hv => ?_⟩⟩
  exact hs.current hu v (.inr hv)

/-- A function that builds a pair of a pair. -/
def pairs : Module where
  functions := [{
    signature := {}
    localCount := 0
    code := [⟨.nil, 0, 0, 0⟩, ⟨.nil, 0, 0, 0⟩, ⟨.allocPair, 0, 0, 0⟩, ⟨.nil, 0, 0, 0⟩,
      ⟨.allocPair, 0, 0, 0⟩, ⟨.ret, 0, 0, 0⟩] }]

/-- The outer pair is on the stack when a collection before every instruction has moved both. -/
theorem runs_safe_pairs :
    let m := [(pairs, 5)].foldl Machine.after
      (Machine.initial .quiet { collectEveryNInstructions := 1 })
    m.rootedHeap.Driven .quiet ∧ m.rootedHeap.Wf ∧ m.rootCells.length = 1 ∧
      ∀ v ∈ m.rootCells, m.heap.NamesCurrent v := by
  obtain ⟨hdriven, hsafe⟩ := runs_safe .quiet { collectEveryNInstructions := 1 } [(pairs, 5)]
  obtain ⟨hw, hcurrent⟩ := hsafe (by decide +kernel)
  exact ⟨hdriven, hw, by decide +kernel, hcurrent⟩

end Runs

end LanguageRuntime.Vm
