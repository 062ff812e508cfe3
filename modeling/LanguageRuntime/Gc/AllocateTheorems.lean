import LanguageRuntime.Gc.BuilderTheorems

/-!
# Allocation

The allocator takes the first free run of slots, or extends the slot vector, and installs a young
object there under a new generation. All other objects keep their identifiers.
-/

namespace LanguageRuntime.Gc

open LanguageRuntime LanguageRuntime.Library

namespace Heap

/-! ## Free runs -/

/-- The storage runs of the objects are in range and disjoint. -/
structure StorageRuns (h : Heap) : Prop where
  inside : ∀ slot o, h.objectAt slot = some o → slot + o.width ≤ h.objects.length
  disjoint : ∀ slot slot' o o', slot < slot' → h.objectAt slot = some o →
    h.objectAt slot' = some o' → slot + o.width ≤ slot'

theorem Storage.storageRuns {h : Heap} (hst : h.Storage) : h.StorageRuns :=
  ⟨hst.inside, hst.disjoint⟩

/-- The `width` slots from `slot` on belong to no object. -/
structure FreeRun (h : Heap) (slot width : ℕ) : Prop where
  inside : slot + width ≤ h.objects.length
  clear : ∀ slot' o, h.objectAt slot' = some o → slot' + o.width ≤ slot ∨ slot + width ≤ slot'

section FreeRun

variable {h : Heap} {required fuel base start length slot : ℕ}

/-- The walk of the allocator: the objects behind it end before the free run it is in, and the
run reaches up to it. -/
theorem freeRun_of_freeRunLoop (hr : h.StorageRuns) (hlength : length < required)
    (hbefore : ∀ s o, s < base → h.objectAt s = some o →
      s + o.width ≤ if length = 0 then base else start)
    (hrun : length ≠ 0 → start + length = base)
    (hslot : h.freeRunLoop required fuel base start length = some slot) :
    h.FreeRun slot required := by
  induction fuel generalizing base start length with
  | zero => exact nomatch hslot
  | succ fuel ih =>
    unfold freeRunLoop at hslot
    split at hslot
    · next hbase =>
      split at hslot
      · next o ho =>
        refine ih (by omega) (fun s o' hs ho' => ?_) (fun hno => absurd rfl hno) hslot
        rw [if_pos rfl]
        rcases Nat.lt_trichotomy s base with hlt | rfl | hgt
        · have hend := hbefore s o' hlt ho'
          have hstart := hrun
          split at hend
          · omega
          · next hne =>
            have hbase := hrun hne
            omega
        · rw [ho] at ho'
          cases ho'
          exact le_rfl
        · have hdisjoint := hr.disjoint base s o o' hgt ho ho'
          omega
      · next hfree =>
        have hbefore' : ∀ s o, s < base + 1 → h.objectAt s = some o →
            s + o.width ≤ if length = 0 then base else start := by
          intro s o hs ho
          rcases Nat.lt_succ_iff_lt_or_eq.mp hs with hlt | rfl
          · exact hbefore s o hlt ho
          · rw [hfree] at ho
            exact nomatch ho
        have hreaches : (if length = 0 then base else start) + (length + 1) = base + 1 := by
          split
          · omega
          · next hne =>
            have hbase := hrun hne
            omega
        dsimp only at hslot
        split at hslot
        · next hdone =>
          cases hslot
          refine ⟨by omega, fun s o ho => ?_⟩
          rcases Nat.lt_or_ge s (base + 1) with hlt | hge
          · exact .inl (hbefore' s o hlt ho)
          · exact .inr (by omega)
        · refine ih (by omega) (fun s o hs ho => ?_) (fun _ => hreaches) hslot
          rw [if_neg (Nat.succ_ne_zero _)]
          exact hbefore' s o hs ho
    · exact nomatch hslot

theorem StorageRuns.freeRun_of_find (hr : h.StorageRuns) (hrequired : 0 < required)
    (hslot : h.findFreeStorageRun required = some slot) : h.FreeRun slot required :=
  freeRun_of_freeRunLoop hr hrequired (fun _ _ hs => absurd hs (Nat.not_lt_zero _))
    (fun hno => absurd rfl hno) hslot

/-- The slots that extend the vector are free. -/
theorem StorageRuns.freeRun_resize (hr : h.StorageRuns) (required : ℕ) :
    (h.resize (h.objects.length + required)).FreeRun h.objects.length required where
  inside := by
    rw [length_objects_resize]
    omega
  clear slot' o ho := by
    rw [objectAt_resize] at ho
    exact .inl (hr.inside slot' o ho)

/-- The allocator finds a free run, or throws and changes nothing. -/
theorem wp_reserveStorageRun (hw : h.Wf) (hc : h.incrementalCompactionActive = false)
    (hrequired : 0 < required) :
    wp (reserveStorageRun required)
      (fun base h' => h'.FreeRun base required ∧ h'.Wf ∧
        ∃ size, h' = h.resize size)
      (fun _ h' => h' = h) h := by
  have hst := hw.storage
  unfold reserveStorageRun
  rw [wp_bind, wp_get]
  split
  · next base hbase =>
    rw [wp_pure]
    exact ⟨hst.storageRuns.freeRun_of_find hrequired hbase, hw, _, (resize_self hst.lengths.ge).symm⟩
  · refine wp_ite (fun _ => rfl) fun hlimit => ?_
    rw [wp_bind, wp_set, wp_pure]
    have hleft := slotsLeft_eq hst.size
    have hsize := hst.size
    exact ⟨hst.storageRuns.freeRun_resize required, hw.resize hc (by omega), _, rfl⟩

end FreeRun

end Heap

/-! ## Sorted insertion -/

section Insert

variable {α : Type} {slotOf : α → ℕ} {slot : ℕ} {entry a : α} {entries : List α}

theorem mem_insertInSlotOrder :
    a ∈ insertInSlotOrder slotOf slot entry entries ↔ a = entry ∨ a ∈ entries := by
  have hsplit : a ∈ entries ↔ a ∈ entries.takeWhile (slotOf · < slot) ∨
      a ∈ entries.dropWhile (slotOf · < slot) := by
    rw [← List.mem_append, List.takeWhile_append_dropWhile]
  rw [insertInSlotOrder, List.mem_append, List.mem_cons, hsplit]
  tauto

/-- A new slot number keeps the entries in slot order. -/
theorem pairwise_insertInSlotOrder (hordered : entries.Pairwise (slotOf · < slotOf ·))
    (hentry : slotOf entry = slot) (hnew : ∀ a ∈ entries, slotOf a ≠ slot) :
    (insertInSlotOrder slotOf slot entry entries).Pairwise (slotOf · < slotOf ·) := by
  induction entries with
  | nil => exact List.pairwise_singleton _ _
  | cons a entries ih =>
    obtain ⟨hhead, htail⟩ := List.pairwise_cons.mp hordered
    have hne := hnew a List.mem_cons_self
    by_cases hlt : slotOf a < slot
    · have hinsert : insertInSlotOrder slotOf slot entry (a :: entries) =
          a :: insertInSlotOrder slotOf slot entry entries := by
        simp only [insertInSlotOrder, List.takeWhile_cons, List.dropWhile_cons, hlt, decide_true,
          if_true, List.cons_append]
      rw [hinsert, List.pairwise_cons]
      refine ⟨fun b hb => ?_, ih htail fun b hb => hnew b (List.mem_cons_of_mem _ hb)⟩
      rcases mem_insertInSlotOrder.mp hb with rfl | hmem
      · rwa [hentry]
      · exact hhead b hmem
    · have hinsert : insertInSlotOrder slotOf slot entry (a :: entries) =
          entry :: a :: entries := by
        simp only [insertInSlotOrder, List.takeWhile_cons, List.dropWhile_cons, hlt, decide_false,
          Bool.false_eq_true, if_false, List.nil_append]
      rw [hinsert, List.pairwise_cons]
      refine ⟨fun b hb => ?_, hordered⟩
      rw [hentry]
      rcases List.mem_cons.mp hb with rfl | hmem
      · omega
      · have hafter := hhead b hmem
        omega

end Insert

/-! ## The new object -/

namespace Heap

section Install

variable {h : Heap} {base generation slot : ℕ} {d : Descriptor} {id : ObjectId} {o : Object}
  {value : Value}

/-- The object that the allocator installs. -/
def newObject (h : Heap) : Descriptor → Object
  | ⟨payload, shape⟩ => ⟨false, .young, payload, shape, h.nextSerial⟩

theorem objectAt_installObject (hbase : base < h.objects.length) (slot : ℕ) :
    (h.installObject d base generation).objectAt slot =
      if slot = base then some (h.newObject d) else h.objectAt slot := by
  have hset := getD_set h.objects base slot (some (h.newObject d)) none
  by_cases hslot : slot = base
  · rw [if_pos hslot]
    rw [if_pos ⟨hslot.symm, hbase⟩] at hset
    exact hset
  · rw [if_neg hslot]
    rw [if_neg fun hand => hslot hand.1.symm] at hset
    exact hset

theorem generationAt_installObject (hbase : base < h.generations.length) (slot : ℕ) :
    (h.installObject d base generation).generationAt slot =
      if slot = base then generation else h.generationAt slot := by
  have hset := getD_set h.generations base slot generation 0
  by_cases hslot : slot = base
  · rw [if_pos hslot]
    rw [if_pos ⟨hslot.symm, hbase⟩] at hset
    exact hset
  · rw [if_neg hslot]
    rw [if_neg fun hand => hslot hand.1.symm] at hset
    exact hset

/-- What the installation of `d` at `base` needs. -/
structure Installs (h : Heap) (d : Descriptor) (base generation : ℕ) : Prop where
  sound : h.Sound
  settled : h.incrementalCompactionActive = false
  free : h.FreeRun base d.val.storageSlotCount
  newer : h.generationAt base < generation

namespace Installs

theorem lt_length (hi : h.Installs d base generation) : base < h.objects.length := by
  have hpos := d.val.storageSlotCount_pos
  have hinside := hi.free.inside
  omega

theorem objectAt_base (hi : h.Installs d base generation) : h.objectAt base = none := by
  cases ho : h.objectAt base with
  | none => rfl
  | some o =>
    have hclear := hi.free.clear base o ho
    have hpos := d.val.storageSlotCount_pos
    have hpos' := o.width_pos
    omega

theorem makeObjectId_eq (hi : h.Installs d base generation) :
    makeObjectId base generation = ⟨base, generation⟩ :=
  makeObjectId_of_lt _ (hi.lt_length.trans_le hi.sound.storage.size)

theorem objectAt (hi : h.Installs d base generation) (slot : ℕ) :
    (h.installObject d base generation).objectAt slot =
      if slot = base then some (h.newObject d) else h.objectAt slot :=
  objectAt_installObject hi.lt_length slot

theorem generationAt (hi : h.Installs d base generation) (slot : ℕ) :
    (h.installObject d base generation).generationAt slot =
      if slot = base then generation else h.generationAt slot :=
  generationAt_installObject (hi.sound.storage.lengths ▸ hi.lt_length) slot

theorem lookup_new (hi : h.Installs d base generation) :
    (h.installObject d base generation).lookup ⟨base, generation⟩ = some (h.newObject d) := by
  have hnewer := hi.newer
  refine lookup_eq_some.mpr ⟨?_, ?_, ?_⟩
  · show generation ≠ 0
    omega
  · rw [hi.generationAt, if_pos rfl]
  · rw [hi.objectAt, if_pos rfl]

/-- The identifiers of the other objects stay. -/
theorem lookup_old (hi : h.Installs d base generation) (ho : h.lookup id = some o) :
    (h.installObject d base generation).lookup id = some o := by
  obtain ⟨hgeneration, hat, hobject⟩ := lookup_eq_some.mp ho
  have hne : id.slot ≠ base := by
    intro heq
    rw [heq, hi.objectAt_base] at hobject
    exact nomatch hobject
  refine lookup_eq_some.mpr ⟨hgeneration, ?_, ?_⟩
  · rwa [hi.generationAt, if_neg hne]
  · rwa [hi.objectAt, if_neg hne]

theorem lookup_inv (hi : h.Installs d base generation)
    (ho : (h.installObject d base generation).lookup id = some o) :
    h.lookup id = some o ∨ id = ⟨base, generation⟩ ∧ o = h.newObject d := by
  obtain ⟨hgeneration, hat, hobject⟩ := lookup_eq_some.mp ho
  rw [hi.generationAt] at hat
  rw [hi.objectAt] at hobject
  by_cases hslot : id.slot = base
  · rw [if_pos hslot] at hat hobject
    refine .inr ⟨?_, (Option.some.inj hobject).symm⟩
    rw [← hslot, hat]
  · rw [if_neg hslot] at hat hobject
    exact .inl (lookup_eq_some.mpr ⟨hgeneration, hat, hobject⟩)

theorem phase_eq (hi : h.Installs d base generation) :
    (h.installObject d base generation).phase = match h.phase with
      | .marking worklist => .marking (⟨base, generation⟩ :: worklist)
      | phase => phase := by
  rw [← hi.makeObjectId_eq]
  rfl

theorem settled' (hi : h.Installs d base generation) :
    (h.installObject d base generation).incrementalCompactionActive = false := by
  have hsettled := hi.settled
  unfold incrementalCompactionActive at hsettled ⊢
  rw [hi.phase_eq]
  cases hphase : h.phase with
  | compacting c =>
    rw [hphase] at hsettled
    exact nomatch hsettled
  | _ => rfl

theorem resolve_old (hi : h.Installs d base generation) (hr : h.resolve id = .ok (slot, o)) :
    (h.installObject d base generation).resolve id = .ok (slot, o) := by
  obtain ⟨o', ho'⟩ := Resolves.current ⟨slot, o, hr⟩ hi.settled
  have hsame := resolve_of_lookup ho'
  rw [hr] at hsame
  cases hsame
  exact resolve_of_lookup (hi.lookup_old ho')

theorem valid (hi : h.Installs d base generation) (hv : h.Valid value) :
    (h.installObject d base generation).Valid value := fun id heq =>
  let ⟨slot, o, hr⟩ := hv id heq
  ⟨slot, o, hi.resolve_old hr⟩

/-- What an identifier that resolved before resolves to. -/
theorem resolve_inv (hi : h.Installs d base generation) (hv : h.Resolves id)
    (hr : (h.installObject d base generation).resolve id = .ok (slot, o)) :
    h.resolve id = .ok (slot, o) := by
  obtain ⟨slot', o', hr'⟩ := hv
  rw [hi.resolve_old hr'] at hr
  cases hr
  exact hr'

theorem storage (hi : h.Installs d base generation) :
    (h.installObject d base generation).Storage := by
  have hst := hi.sound.storage
  have hlength : (h.installObject d base generation).objects.length = h.objects.length :=
    List.length_set
  refine ⟨hlength ▸ hst.size, ?_, ?_, ?_, ?_⟩
  · rw [hlength, ← hst.lengths]
    exact List.length_set
  · intro slot o ho
    rw [hlength]
    rw [hi.objectAt] at ho
    split at ho
    · next hslot =>
      cases ho
      rw [hslot]
      exact hi.free.inside
    · exact hst.inside slot o ho
  · intro slot slot' o o' hlt ho ho'
    rw [hi.objectAt] at ho ho'
    split at ho
    · next hslot =>
      cases ho
      rw [if_neg (by omega)] at ho'
      have hclear := hi.free.clear slot' o' ho'
      have hwidth : (h.newObject d).width = d.val.storageSlotCount := rfl
      omega
    · split at ho'
      · have hclear := hi.free.clear slot o ho
        omega
      · exact hst.disjoint slot slot' o o' hlt ho ho'
  · intro slot o ho
    rw [hi.objectAt] at ho
    rw [hi.generationAt]
    split at ho
    · next hslot =>
      rw [if_pos hslot]
      have hnewer := hi.newer
      omega
    · next hslot =>
      rw [if_neg hslot]
      exact hst.named slot o ho

theorem currentId (hi : h.Installs d base generation) (hne : slot ≠ base) :
    (h.installObject d base generation).currentId slot = h.currentId slot := by
  rw [Heap.currentId, Heap.currentId, hi.generationAt, if_neg hne]

theorem checkedString (hi : h.Installs d base generation) {bytes : List UInt8}
    (hb : h.checkedString id = .ok bytes) :
    (h.installObject d base generation).checkedString id = .ok bytes := by
  obtain ⟨slot, o, hr, hp⟩ := checkedString_eq_ok.mp hb
  exact checkedString_eq_ok.mpr ⟨slot, o, hi.resolve_old hr, hp⟩

theorem indexedMap (hi : h.Installs d base generation) {m : MapPayload} (hm : h.IndexedMap m) :
    (h.installObject d base generation).IndexedMap m where
  capacity := hm.capacity
  index := by
    have hkeys : List.Forall₂ (fun e e' : MapEntry => ∀ hash, h.mapKeyHash e.key = .ok hash →
        (h.installObject d base generation).mapKeyHash e'.key = .ok hash) m.entries m.entries := by
      refine List.forall₂_same.mpr fun e _ hash hhash => ?_
      rw [← mapObject_id e.key]
      exact mapKeyHash_mapObject (fun id bytes _ hb => hi.checkedString hb) hhash
    exact insertMapEntries_congr hkeys hm.index

/-- A registry with the new object, if it is of the kind of the registry. -/
theorem isRegistry (hi : h.Installs d base generation) {kind : ObjectKind}
    {registry : List ObjectId} (hreg : h.IsRegistry kind registry) :
    (h.installObject d base generation).IsRegistry kind
      (if d.val.kind = kind then
        insertInSlotOrder ObjectId.slot base ⟨base, generation⟩ registry else registry) := by
  have hmem : ∀ id, id ∈ (if d.val.kind = kind then
      insertInSlotOrder ObjectId.slot base ⟨base, generation⟩ registry else registry) ↔
        id ∈ registry ∨ d.val.kind = kind ∧ id = ⟨base, generation⟩ := by
    intro id
    split
    · next hkind =>
      rw [mem_insertInSlotOrder]
      tauto
    · next hkind => tauto
  refine ⟨?_, fun id => ?_⟩
  · split
    · refine pairwise_insertInSlotOrder hreg.ordered rfl fun id hid heq => ?_
      obtain ⟨o, ho, -⟩ := (hreg.mem id).mp hid
      have hobject := objectAt_of_lookup ho
      rw [heq, hi.objectAt_base] at hobject
      exact nomatch hobject
    · exact hreg.ordered
  · rw [hmem, hreg.mem]
    constructor
    · rintro (⟨o, ho, hkind⟩ | ⟨hkind, rfl⟩)
      · exact ⟨o, hi.lookup_old ho, hkind⟩
      · exact ⟨_, hi.lookup_new, hkind⟩
    · rintro ⟨o, ho, hkind⟩
      rcases hi.lookup_inv ho with hold | ⟨rfl, rfl⟩
      · exact .inl ⟨o, hold, hkind⟩
      · exact .inr ⟨hkind, rfl⟩

theorem stringAt (hi : h.Installs d base generation) (hid : h.Current id) {bytes : List UInt8} :
    (h.installObject d base generation).StringAt id bytes ↔ h.StringAt id bytes := by
  obtain ⟨o, ho⟩ := hid
  have ho' := hi.lookup_old ho
  unfold StringAt
  rw [ho, ho']

theorem interns (hi : h.Installs d base generation) :
    (h.installObject d base generation).Interns := by
  have hint := hi.sound.interns
  have hcurrent : ∀ entry ∈ h.internTable, h.Current entry.canonical := by
    intro entry hentry
    obtain ⟨o, ho, -⟩ := hint.listed hentry
    exact ⟨o, ho⟩
  refine ⟨hint.ordered, fun entry hentry => ?_, fun a ha b hb bytes hbytes hbytes' => ?_⟩
  · obtain ⟨bytes, hbytes, hhash⟩ := hint.hashed entry hentry
    exact ⟨bytes, (hi.stringAt (hcurrent entry hentry)).mpr hbytes, hhash⟩
  · exact hint.distinct a ha b hb bytes ((hi.stringAt (hcurrent a ha)).mp hbytes)
      ((hi.stringAt (hcurrent b hb)).mp hbytes')

/-- Installing an object whose fields resolve keeps the invariant. -/
theorem sound_install (hi : h.Installs d base generation)
    (hfields : ∀ value ∈ d.val.allFields, h.Valid value)
    (hmap : ∀ m, d.val = .map m → h.IndexedMap m) :
    (h.installObject d base generation).Sound := by
  have hs := hi.sound
  refine ⟨hi.storage, ?_, fun value hvalue => hi.valid (hs.cells value hvalue),
    fun root hroot => hi.valid (hs.handles root hroot), ⟨hs.remembers.nodup, ?_, ?_⟩, ?_, ?_,
    hi.interns, ?_⟩
  · intro slot o ho value hvalue
    rw [hi.objectAt] at ho
    split at ho
    · cases ho
      exact hi.valid (hfields value hvalue)
    · exact hi.valid (hs.fields slot o ho value hvalue)
  · intro id hid
    obtain ⟨o, ho, hold⟩ := hs.remembers.old id hid
    exact ⟨o, hi.lookup_old ho, hold⟩
  · intro slot o ho hold id hid hyoung
    rw [hi.objectAt] at ho
    split at ho
    · cases ho
      exact nomatch hold
    · next hslot =>
      rw [hi.currentId hslot]
      obtain ⟨slot', target, hr, hyoung⟩ := hyoung
      have hv := hs.fields slot o ho _ (List.mem_append_left _ hid)
      exact hs.remembers.complete slot o ho hold id hid
        ⟨slot', target, hi.resolve_inv (valid_object.mp hv) hr, hyoung⟩
  · have hreg := hi.isRegistry hs.weakRefs
    rw [← hi.makeObjectId_eq] at hreg
    exact hreg
  · have hreg := hi.isRegistry hs.ephemerons
    rw [← hi.makeObjectId_eq] at hreg
    exact hreg
  · intro slot o m ho hm
    rw [hi.objectAt] at ho
    split at ho
    · cases ho
      exact hi.indexedMap (hmap m hm)
    · exact hi.indexedMap (hs.maps slot o m ho hm)

/-- The new object is unmarked, and grey while marking. -/
theorem phaseSound (hi : h.Installs d base generation) (hp : h.PhaseSound) :
    (h.installObject d base generation).PhaseSound := by
  have hs := hi.sound
  have hsettled := hi.settled
  unfold PhaseSound at hp ⊢
  rw [hi.phase_eq]
  cases hphase : h.phase with
  | idle =>
    rw [hphase] at hp
    intro slot o ho
    rw [hi.objectAt] at ho
    split at ho
    · cases ho
      rfl
    · exact hp slot o ho
  | marking worklist =>
    rw [hphase] at hp
    refine ⟨fun id hid => ?_, fun slot o ho hlive id hid slot' o' hr => ?_⟩
    · rcases List.mem_cons.mp hid with rfl | hmem
      · exact ⟨_, hi.lookup_new⟩
      · obtain ⟨o, ho⟩ := hp.grey id hmem
        exact ⟨o, hi.lookup_old ho⟩
    · rw [hi.objectAt] at ho
      split at ho
      · cases ho
        cases hlive
      · have hv := hs.fields slot o ho _ (List.mem_append_left _ hid)
        exact (hp.traces slot o ho hlive id hid slot' o'
          (hi.resolve_inv (valid_object.mp hv) hr)).imp_right (List.mem_cons_of_mem _)
  | compacting c =>
    rw [incrementalCompactionActive, hphase] at hsettled
    cases hsettled

end Installs

/-! ## The allocator -/

/-- `h'` is `h` with a new object for the payload `p`, and possibly after a movement. -/
structure Allocates (h h' : Heap) (id : ObjectId) (p : Payload) : Prop where
  wf : h'.Wf
  settled : h'.incrementalCompactionActive = false
  current : h'.Current id
  string : ∀ bytes, p = .str bytes → h'.StringAt id bytes
  interned : ∀ entry' ∈ h'.internTable, ∃ entry ∈ h.internTable, ∀ bytes,
    h'.StringAt entry'.canonical bytes → h.StringAt entry.canonical bytes

/-- A payload that an allocator may install: maps are born empty. -/
structure Fresh (h : Heap) (p : Payload) : Prop where
  fields : ∀ value ∈ p.allFields, h.Valid value
  empty : ∀ m, p = .map m → m.entries = [] ∧ m.lookupIndex = []

theorem Fresh.indexedMap (hf : h.Fresh d.val) {m : MapPayload} (hm : d.val = .map m) :
    h.IndexedMap m := by
  obtain ⟨hentries, hindex⟩ := hf.empty m hm
  refine ⟨?_, ?_⟩
  · rw [hentries, hindex]
    rfl
  · rw [hentries, hindex]
    rfl

theorem Fresh.resize {p : Payload} (hf : h.Fresh p) (size : ℕ) : (h.resize size).Fresh p where
  fields value hvalue := valid_resize.mpr (hf.fields value hvalue)
  empty := hf.empty

theorem wp_placeObject {p : Payload} (hw : h.Wf) (hc : h.incrementalCompactionActive = false)
    (hf : h.Fresh p) : wp (placeObject p) (fun id h' => h.Allocates h' id p) Throws h := by
  unfold placeObject
  refine wp_query_bind (fun d hd => ?_) fun _ _ => .inl hw
  obtain ⟨hshape, rfl⟩ := validateDescriptorShape_eq_ok hd
  rw [wp_bind]
  refine wp_mono (wp_reserveStorageRun hw hc p.storageSlotCount_pos) (fun base h₁ hpost => ?_)
    fun _ _ heq => .inl (heq ▸ hw)
  obtain ⟨hfree, hw₁, size, rfl⟩ := hpost
  refine wp_query_bind (fun generation hgeneration => ?_) fun _ _ => .inl hw₁
  have hi : (h.resize size).Installs ⟨p, hshape⟩ base generation :=
    ⟨hw₁.toSound, hc, hfree, lt_of_generationForNewBase hgeneration⟩
  have hf₁ := hf.resize size
  rw [wp_bind, wp_modify, wp_pure, hi.makeObjectId_eq]
  refine ⟨⟨hi.sound_install hf₁.fields fun m hm => hf₁.indexedMap hm, hi.phaseSound hw₁.phase⟩,
    hi.settled', ⟨_, hi.lookup_new⟩, fun bytes hp => ⟨_, hi.lookup_new, hp⟩, ?_⟩
  intro entry hentry
  refine ⟨entry, hentry, fun bytes hbytes => ?_⟩
  obtain ⟨o, ho, -⟩ := hw₁.interns.listed hentry
  obtain ⟨o', ho', hp⟩ := (hi.stringAt ⟨o, ho⟩).mp hbytes
  exact ⟨o', (lookup_resize h size _).symm.trans ho', hp⟩

end Install

/-! ## Construction roots -/

section Roots

variable {fields values : List Value} {refMap : List Bool} {value : Value} {p : Payload}

theorem mem_markedFields_replace (hlength : values.length = (markedFields fields refMap).length)
    (hvalue : value ∈ markedFields (replaceMarkedFields fields refMap values) refMap) :
    value ∈ values := by
  induction fields generalizing refMap values with
  | nil =>
    cases refMap <;> exact nomatch hvalue
  | cons field fields ih =>
    cases refMap with
    | nil => exact nomatch hvalue
    | cons isRef refMap =>
      cases isRef with
      | false => exact ih hlength hvalue
      | true =>
        cases values with
        | nil => exact nomatch hlength
        | cons head values =>
          rcases List.mem_cons.mp hvalue with rfl | hmem
          · exact List.mem_cons_self
          · exact List.mem_cons_of_mem _ (ih (Nat.succ.inj hlength) hmem)

theorem mem_of_getD {i : ℕ} {default : Value} (hi : i < values.length) :
    values.getD i default ∈ values := by
  rw [List.getD_eq_getElem _ _ hi]
  exact List.getElem_mem _

/-- Once its fields are replaced, a payload holds the new values only. -/
theorem mem_allFields_replaceFields (hempty : ∀ m, p = .map m → m.entries = [])
    (hlength : values.length = p.allFields.length)
    (hvalue : value ∈ (p.replaceFields values).allFields) : value ∈ values := by
  cases p with
  | pair left right =>
    have hlength : values.length = 2 := hlength
    have hvalue : value ∈ [values.getD 0 left, values.getD 1 right] := hvalue
    simp only [List.mem_cons, List.not_mem_nil, or_false] at hvalue
    rcases hvalue with rfl | rfl
    · exact mem_of_getD (by omega)
    · exact mem_of_getD (by omega)
  | refArray elements =>
    simpa only [Payload.replaceFields, Payload.allFields, Payload.referenceFields,
      Payload.weakFields, List.append_nil] using hvalue
  | closure l fn captures captureMap =>
    simp only [Payload.replaceFields, Payload.allFields, Payload.referenceFields,
      Payload.weakFields, List.append_nil] at hvalue hlength
    exact mem_markedFields_replace hlength hvalue
  | map m =>
    simp only [Payload.replaceFields, Payload.allFields, Payload.referenceFields,
      Payload.weakFields, List.append_nil, hempty m rfl, replaceMapEntries] at hvalue
    cases hvalue
  | weakRef target =>
    have hlength : values.length = 1 := hlength
    have hvalue : value ∈ [values.getD 0 target] := hvalue
    rw [List.mem_singleton.mp hvalue]
    exact mem_of_getD (by omega)
  | record l fields refMap =>
    simp only [Payload.replaceFields, Payload.allFields, Payload.referenceFields,
      Payload.weakFields, List.append_nil] at hvalue hlength
    exact mem_markedFields_replace hlength hvalue
  | variant l c fields caseRefMaps =>
    simp only [Payload.replaceFields, Payload.allFields, Payload.referenceFields,
      Payload.weakFields, List.append_nil] at hvalue hlength
    exact mem_markedFields_replace hlength hvalue
  | ephemeron key old valueIsRef =>
    cases valueIsRef with
    | true =>
      have hlength : values.length = 2 := hlength
      have hvalue : value ∈ [values.getD 0 key, values.getD 1 old] := hvalue
      simp only [List.mem_cons, List.not_mem_nil, or_false] at hvalue
      rcases hvalue with rfl | rfl
      · exact mem_of_getD (by omega)
      · exact mem_of_getD (by omega)
    | false =>
      have hlength : values.length = 1 := hlength
      have hvalue : value ∈ [values.getD 0 key] := hvalue
      rw [List.mem_singleton.mp hvalue]
      exact mem_of_getD (by omega)
  | _ => cases hvalue

end Roots

/-! ## Allocation in every phase -/

section Allocate

variable {h : Heap} {d : Descriptor} {id : ObjectId} {operands : List Value}

/-- Replacing the fields by what a movement made of them keeps the payload fresh. -/
theorem Fresh.replaceFields {h' : Heap} {values : List Value} {p : Payload} (hf : h.Fresh p)
    (hlength : values.length = p.allFields.length) (hvalues : ∀ value ∈ values, h'.Valid value) :
    h'.Fresh (p.replaceFields values) where
  fields value hvalue := hvalues value
    (mem_allFields_replaceFields (fun m hm => (hf.empty m hm).1) hlength hvalue)
  empty m hm := by
    cases p with
    | map m' =>
      obtain ⟨hentries, hindex⟩ := hf.empty m' rfl
      cases hm
      refine ⟨?_, hindex⟩
      show replaceMapEntries _ _ m'.entries values = []
      rw [hentries]
      rfl
    | _ => exact nomatch hm

/-- Allocating in any phase keeps the invariant; a throw leaves a heap that keeps it. -/
theorem wp_allocateObject (hw : h.Wf) (hf : h.Fresh d.val) :
    wp (allocateObject d) (fun id h' => h.Allocates h' id d.val) Throws h := by
  unfold allocateObject
  rw [wp_bind, wp_get]
  refine wp_ite (fun hactive => ?_) fun hinactive => ?_
  · cases hphase : h.phase with
    | compacting c =>
      rw [wp_bind]
      refine wp_mono (wp_finishIncrementalCompactionImpl hw hphase hf.fields)
        (fun cells' h' hpost => ?_) fun _ _ he => he.elim
      obtain ⟨hfinished, rfl⟩ := hpost
      have hrests := hfinished.rests hw hphase hf.fields
      have hf' := hf.replaceFields hrests.arity hrests.valid
      refine wp_mono (wp_placeObject hrests.wf (compactionActive_of_idle hrests.idle) hf')
        (fun id h'' hallocates => ?_) fun _ _ he => he
      refine { hallocates with string := fun bytes hp => ?_, interned := fun entry hentry => ?_ }
      · exact hallocates.string bytes (by rw [hp]; rfl)
      · obtain ⟨entry', hentry', hback⟩ := hallocates.interned entry hentry
        obtain ⟨entry'', hentry'', hback'⟩ := hrests.carries.interned entry' hentry'
        exact ⟨entry'', hentry'', fun bytes hbytes => hback' bytes (hback bytes hbytes)⟩
    | _ =>
      rw [incrementalCompactionActive, hphase] at hactive
      cases hactive
  · exact wp_placeObject hw (by simpa using hinactive) hf

theorem stringAt_of_checkedString (hid : h.Current id) {bytes : List UInt8}
    (hbytes : h.checkedString id = .ok bytes) : h.StringAt id bytes := by
  obtain ⟨o, ho⟩ := hid
  obtain ⟨slot, o', hr, hp⟩ := checkedString_eq_ok.mp hbytes
  rw [resolve_of_lookup ho] at hr
  cases hr
  exact ⟨o, ho, hp⟩

/-- The collection after an allocation keeps the new object. -/
theorem wp_collectAfterAllocation {h₀ : Heap} {p : Payload} (ha : h₀.Allocates h id p) :
    wp (collectAfterAllocation id) (fun id' h' => h₀.Allocates h' id' p) Throws h := by
  unfold collectAfterAllocation
  rw [wp_bind, wp_get]
  refine wp_ite (fun _ => ?_) fun _ => ha
  have hvalid : h.Valid (.object id) := valid_object.mpr ha.current.resolves
  rw [wp_bind, collectWithExtraRoots]
  refine wp_mono (wp_collectImpl ha.wf (List.forall_mem_singleton.mpr hvalid))
    (fun cells' h' hrests => ?_) fun _ _ he => he
  split
  · next id' =>
    rw [wp_pure]
    have hsettled := compactionActive_of_idle hrests.idle
    have hcurrent : h'.Current id' :=
      (valid_object.mp (hrests.valid _ List.mem_cons_self)).current hsettled
    refine ⟨hrests.wf, hsettled, hcurrent, fun bytes hp => ?_, fun entry hentry => ?_⟩
    · have hbytes := checkedString_of_stringAt (ha.string bytes hp)
      have hcells := hrests.carries.cells
      cases hcells with
      | cons hhead _ =>
        obtain ⟨id'', heq, hbytes'⟩ := hhead id bytes rfl hbytes
        cases heq
        exact stringAt_of_checkedString hcurrent hbytes'
    · obtain ⟨entry', hentry', hback⟩ := hrests.carries.interned entry hentry
      obtain ⟨entry'', hentry'', hback'⟩ := ha.interned entry' hentry'
      exact ⟨entry'', hentry'', fun bytes hbytes => hback' bytes (hback bytes hbytes)⟩
  · exact .inl hrests.wf

/-- What every allocator does last. -/
theorem wp_allocateDescriptor {descriptor : Except HeapError Descriptor} (hw : h.Wf)
    (hf : ∀ d, descriptor = .ok d → h.Fresh d.val) :
    wp (allocateDescriptor descriptor)
      (fun id h' => ∃ d : Descriptor, descriptor = .ok d ∧ h.Allocates h' id d.val) Throws h := by
  unfold allocateDescriptor
  refine wp_query_bind (fun d hd => ?_) fun _ _ => .inl hw
  rw [wp_bind]
  refine wp_mono (wp_allocateObject hw (hf d hd)) (fun id h' ha => ?_) fun _ _ he => he
  exact wp_mono (wp_collectAfterAllocation ha) (fun _ _ ha' => ⟨d, hd, ha'⟩) fun _ _ he => he

/-- The collection before an allocation. -/
theorem wp_collectBeforeAllocation (hw : h.Wf) (hoperands : ∀ v ∈ operands, h.Valid v) :
    wp (collectBeforeAllocation operands)
      (fun operands' h' => h'.Wf ∧ (∀ v ∈ operands', h'.Valid v) ∧
        operands'.length = operands.length ∧ h.Carries h' operands operands')
      Throws h := by
  unfold collectBeforeAllocation
  rw [wp_bind, wp_get]
  refine wp_ite (fun _ => ?_) fun _ => ?_
  · rw [collectWithExtraRoots]
    exact wp_mono (wp_collectImpl hw hoperands) (fun _ _ hrests => ⟨hrests.wf, hrests.valid,
      hrests.arity, hrests.carries⟩) fun _ _ he => he
  · rw [wp_pure]
    exact ⟨hw, hoperands, rfl, .refl h operands⟩

/-- A payload built from some operands and from values that are no references. -/
structure BuiltFrom (operands : List Value) (p : Payload) : Prop where
  fields : ∀ value ∈ p.allFields, value ∈ operands ∨ value.isObject = false
  empty : ∀ m, p = .map m → m.entries = [] ∧ m.lookupIndex = []

theorem BuiltFrom.fresh {p : Payload} (hb : BuiltFrom operands p)
    (hoperands : ∀ v ∈ operands, h.Valid v) : h.Fresh p where
  fields value hvalue := (hb.fields value hvalue).elim (hoperands value) valid_of_not_isObject
  empty := hb.empty

/-- A collection before, the construction, a collection after. -/
theorem wp_allocate {descriptor : List Value → Except HeapError Descriptor} (hw : h.Wf)
    (hoperands : ∀ v ∈ operands, h.Valid v)
    (hd : ∀ operands', operands'.length = operands.length → ∀ d, descriptor operands' = .ok d →
      BuiltFrom operands' d.val) :
    wp (do
      let operands ← collectBeforeAllocation operands
      allocateDescriptor (descriptor operands)) (fun _ h' => h'.Wf) Throws h := by
  rw [wp_bind]
  refine wp_mono (wp_collectBeforeAllocation hw hoperands) (fun operands' h' hpost => ?_)
    fun _ _ he => he
  obtain ⟨hw', hvalid, hlength, -⟩ := hpost
  exact wp_mono (wp_allocateDescriptor hw' fun d hd' => (hd operands' hlength d hd').fresh hvalid)
    (fun _ _ ⟨_, _, ha⟩ => ha.wf) fun _ _ he => he

end Allocate

/-! ## The public allocators -/

section Allocators

variable {h : Heap} {left right value key source builder target : Value} {length l c fn lo hi : ℕ}
  {fields captures : List Value} {refMap : List Bool} {caseRefMaps : List (List Bool)}

theorem getD_mem_or_nil (operands : List Value) (i : ℕ) :
    operands.getD i .nil ∈ operands ∨ (operands.getD i .nil).isObject = false := by
  by_cases hi : i < operands.length
  · exact .inl (mem_of_getD hi)
  · rw [List.getD_eq_default _ _ (Nat.not_lt.mp hi)]
    exact .inr rfl

theorem builtFrom_pair (operands : List Value) :
    BuiltFrom operands (Object.pair (operands.getD 0 .nil) (operands.getD 1 .nil)).val where
  fields value hvalue := by
    have hvalue : value ∈ [operands.getD 0 .nil, operands.getD 1 .nil] := hvalue
    simp only [List.mem_cons, List.not_mem_nil, or_false] at hvalue
    rcases hvalue with rfl | rfl
    · exact getD_mem_or_nil operands 0
    · exact getD_mem_or_nil operands 1
  empty := nofun

theorem wp_allocatePair (hw : h.Wf) (hleft : h.Valid left) (hright : h.Valid right) :
    wp (allocatePair left right) (fun _ h' => h'.Wf) Throws h := by
  have hoperands : ∀ v ∈ [left, right], h.Valid v := by
    simp only [List.forall_mem_cons, List.not_mem_nil, false_implies, implies_true, and_true]
    exact ⟨hleft, hright⟩
  refine wp_allocate hw hoperands fun operands _ d hd => ?_
  cases hd
  exact builtFrom_pair operands

/-- A payload without references. -/
theorem builtFrom_of_no_fields {operands : List Value} {p : Payload} (hfields : p.allFields = [])
    (hempty : ∀ m, p = .map m → m.entries = [] ∧ m.lookupIndex = []) : BuiltFrom operands p where
  fields value hvalue := by
    rw [hfields] at hvalue
    exact nomatch hvalue
  empty := hempty

theorem scalarArray_eq_ok {init : Int64} {d : Descriptor}
    (hd : Object.scalarArray length init = .ok d) :
    d.val = .scalarArray (List.replicate length init) := by
  unfold Object.scalarArray at hd
  split at hd
  · exact nomatch hd
  · cases hd
    rfl

theorem builtFrom_scalarArray {operands : List Value} {init : Int64} {d : Descriptor}
    (hd : Object.scalarArray length init = .ok d) : BuiltFrom operands d.val := by
  rw [scalarArray_eq_ok hd]
  exact builtFrom_of_no_fields rfl nofun

theorem wp_allocateScalarArray (hw : h.Wf) (init : Int64) :
    wp (allocateScalarArray length init) (fun _ h' => h'.Wf) Throws h :=
  wp_allocate hw nofun fun _ _ _ hd => builtFrom_scalarArray hd

theorem refArray_eq_ok {d : Descriptor} (hd : Object.refArray length value = .ok d) :
    d.val = .refArray (List.replicate length value) := by
  unfold Object.refArray at hd
  split at hd
  · exact nomatch hd
  · obtain ⟨_, _, hd⟩ := bind_eq_ok.mp hd
    cases hd
    rfl

theorem builtFrom_refArray {operands : List Value} {d : Descriptor}
    (hd : Object.refArray length (operands.getD 0 .nil) = .ok d) : BuiltFrom operands d.val := by
  rw [refArray_eq_ok hd]
  refine ⟨fun v hv => ?_, nofun⟩
  have hv : v ∈ List.replicate length (operands.getD 0 .nil) := by
    simpa only [Payload.allFields, Payload.referenceFields, Payload.weakFields, List.append_nil]
      using hv
  rw [List.eq_of_mem_replicate hv]
  exact getD_mem_or_nil operands 0

theorem wp_allocateRefArray (hw : h.Wf) (hvalue : h.Valid value) :
    wp (allocateRefArray length value) (fun _ h' => h'.Wf) Throws h := by
  unfold allocateRefArray
  refine wp_query_bind (fun _ _ => ?_) fun _ _ => .inl hw
  exact wp_allocate hw (List.forall_mem_singleton.mpr hvalue) fun _ _ _ hd => builtFrom_refArray hd

theorem string_eq_ok {bytes : List UInt8} {d : Descriptor} (hd : Object.string bytes = .ok d) :
    d.val = .str bytes := by
  unfold Object.string at hd
  split at hd
  · exact nomatch hd
  · cases hd
    rfl

theorem builtFrom_string {operands : List Value} {bytes : List UInt8} {d : Descriptor}
    (hd : Object.string bytes = .ok d) : BuiltFrom operands d.val := by
  rw [string_eq_ok hd]
  exact builtFrom_of_no_fields rfl nofun

theorem wp_allocateString (hw : h.Wf) (bytes : List UInt8) :
    wp (allocateString bytes) (fun _ h' => h'.Wf) Throws h :=
  wp_allocate hw nofun fun _ _ _ hd => builtFrom_string hd

theorem builtFrom_builder (operands : List Value) : BuiltFrom operands Object.builder.val :=
  builtFrom_of_no_fields rfl nofun

theorem wp_allocateBuilder (hw : h.Wf) : wp allocateBuilder (fun _ h' => h'.Wf) Throws h := by
  refine wp_allocate hw nofun fun operands _ d hd => ?_
  cases hd
  exact builtFrom_builder operands

theorem map_eq_ok_empty {keyIsRef valueIsRef : Bool} {d : Descriptor}
    (hd : Object.map l keyIsRef valueIsRef = .ok d) :
    d.val = .map ⟨l, keyIsRef, valueIsRef, [], []⟩ := by
  unfold Object.map at hd
  split at hd
  · exact nomatch hd
  · cases hd
    rfl

theorem builtFrom_map {operands : List Value} {keyIsRef valueIsRef : Bool} {d : Descriptor}
    (hd : Object.map l keyIsRef valueIsRef = .ok d) : BuiltFrom operands d.val := by
  rw [map_eq_ok_empty hd]
  refine builtFrom_of_no_fields rfl fun m hm => ?_
  cases hm
  exact ⟨rfl, rfl⟩

theorem wp_allocateMap (hw : h.Wf) (keyIsRef valueIsRef : Bool) :
    wp (allocateMap l keyIsRef valueIsRef) (fun _ h' => h'.Wf) Throws h :=
  wp_allocate hw nofun fun _ _ _ hd => builtFrom_map hd

/-- A string allocated from bytes that have been read. -/
theorem wp_allocateBytes (hw : h.Wf) (bytes : List UInt8) :
    wp (allocateDescriptor (Object.string bytes)) (fun _ h' => h'.Wf) Throws h := by
  have hfresh : ∀ d, Object.string bytes = .ok d → h.Fresh d.val := fun d hd =>
    (builtFrom_string hd : BuiltFrom [] d.val).fresh nofun
  exact wp_mono (wp_allocateDescriptor hw hfresh) (fun _ _ ⟨_, _, ha⟩ => ha.wf) fun _ _ he => he

theorem wp_builderToString (hw : h.Wf) (hbuilder : h.Valid builder) :
    wp (builderToString builder) (fun _ h' => h'.Wf) Throws h := by
  unfold builderToString
  refine wp_query_bind (fun _ _ => ?_) fun _ _ => .inl hw
  refine wp_query_bind (fun _ _ => ?_) fun _ _ => .inl hw
  rw [wp_bind]
  refine wp_mono (wp_finishActiveCompaction hw (List.forall_mem_singleton.mpr hbuilder))
    (fun cells₁ h₁ hpost => ?_) fun _ _ he => he.elim
  obtain ⟨hw₁, hcells₁, -⟩ := hpost
  rw [wp_bind]
  refine wp_mono (wp_collectBeforeAllocation hw₁ hcells₁) (fun cells₂ h₂ hpost => ?_)
    fun _ _ he => he
  have hw₂ := hpost.1
  refine wp_query_bind (fun _ _ => ?_) fun _ _ => .inl hw₂
  refine wp_query_bind (fun _ _ => ?_) fun _ _ => .inl hw₂
  exact wp_allocateBytes hw₂ _

theorem wp_allocateStringConcat (hw : h.Wf) (hleft : h.Valid left) (hright : h.Valid right) :
    wp (allocateStringConcat left right) (fun _ h' => h'.Wf) Throws h := by
  have hoperands : ∀ v ∈ [left, right], h.Valid v := by
    simp only [List.forall_mem_cons, List.not_mem_nil, false_implies, implies_true, and_true]
    exact ⟨hleft, hright⟩
  unfold allocateStringConcat
  refine wp_query_bind (fun _ _ => ?_) fun _ _ => .inl hw
  refine wp_query_bind (fun _ _ => ?_) fun _ _ => .inl hw
  rw [wp_bind]
  refine wp_mono (wp_collectBeforeAllocation hw hoperands) (fun cells₁ h₁ hpost => ?_)
    fun _ _ he => he
  have hw₁ := hpost.1
  refine wp_query_bind (fun _ _ => ?_) fun _ _ => .inl hw₁
  refine wp_query_bind (fun _ _ => ?_) fun _ _ => .inl hw₁
  refine wp_ite (fun _ => .inl hw₁) fun _ => ?_
  exact wp_allocateBytes hw₁ _

theorem wp_allocateStringSubstring (hw : h.Wf) (hsource : h.Valid source) :
    wp (allocateStringSubstring source lo hi) (fun _ h' => h'.Wf) Throws h := by
  unfold allocateStringSubstring
  refine wp_query_bind (fun _ _ => ?_) fun _ _ => .inl hw
  rw [wp_bind]
  refine wp_mono (wp_collectBeforeAllocation hw (List.forall_mem_singleton.mpr hsource))
    (fun cells₁ h₁ hpost => ?_) fun _ _ he => he
  have hw₁ := hpost.1
  refine wp_query_bind (fun _ _ => ?_) fun _ _ => .inl hw₁
  exact wp_allocateBytes hw₁ _

theorem mem_markedFields {v : Value} (hv : v ∈ markedFields fields refMap) : v ∈ fields := by
  induction fields generalizing refMap with
  | nil => cases refMap <;> exact nomatch hv
  | cons field fields ih =>
    cases refMap with
    | nil => exact nomatch hv
    | cons isRef refMap =>
      cases isRef with
      | false => exact List.mem_cons_of_mem _ (ih hv)
      | true =>
        rcases List.mem_cons.mp hv with rfl | hmem
        · exact List.mem_cons_self
        · exact List.mem_cons_of_mem _ (ih hmem)

theorem closure_eq_ok {captureMap : List Bool} {d : Descriptor}
    (hd : Object.closure l fn captures captureMap = .ok d) :
    d.val = .closure l fn captures captureMap := by
  unfold Object.closure at hd
  split at hd
  · exact nomatch hd
  · split at hd
    · exact nomatch hd
    · obtain ⟨hshape, rfl⟩ := validateDescriptorShape_eq_ok hd
      rfl

theorem builtFrom_closure {operands : List Value} {d : Descriptor}
    (hd : Object.closure l fn operands refMap = .ok d) : BuiltFrom operands d.val := by
  rw [closure_eq_ok hd]
  refine ⟨fun v hv => .inl ?_, nofun⟩
  simp only [Payload.allFields, Payload.referenceFields, Payload.weakFields,
    List.append_nil] at hv
  exact mem_markedFields hv

theorem wp_allocateClosure (hw : h.Wf) (hcaptures : ∀ v ∈ captures, h.Valid v) :
    wp (allocateClosure l fn captures refMap) (fun _ h' => h'.Wf) Throws h := by
  unfold allocateClosure
  refine wp_ite (fun _ => .inl hw) fun _ => ?_
  refine wp_query_bind (fun _ _ => ?_) fun _ _ => .inl hw
  exact wp_allocate hw hcaptures fun _ _ _ hd => builtFrom_closure hd

theorem requireObjectReferenceValue_eq_ok {context : String} {id : ObjectId}
    (hid : Object.requireObjectReferenceValue value context = .ok id) : value = .object id := by
  unfold Object.requireObjectReferenceValue at hid
  split at hid
  · cases hid
    rfl
  · exact nomatch hid

theorem weakRef_eq_ok {d : Descriptor} (hd : Object.weakRef value = .ok d) :
    d.val = .weakRef value := by
  obtain ⟨id, hid, hd⟩ := bind_eq_ok.mp hd
  cases hd
  rw [requireObjectReferenceValue_eq_ok hid]

theorem builtFrom_weakRef {operands : List Value} {d : Descriptor}
    (hd : Object.weakRef (operands.getD 0 .nil) = .ok d) : BuiltFrom operands d.val := by
  rw [weakRef_eq_ok hd]
  refine ⟨fun v hv => ?_, nofun⟩
  have hv : v ∈ [operands.getD 0 .nil] := hv
  rw [List.mem_singleton.mp hv]
  exact getD_mem_or_nil operands 0

theorem wp_allocateWeak (hw : h.Wf) (htarget : h.Valid target) :
    wp (allocateWeak target) (fun _ h' => h'.Wf) Throws h := by
  unfold allocateWeak
  refine wp_query_bind (fun _ _ => ?_) fun _ _ => .inl hw
  refine wp_query_bind (fun _ _ => ?_) fun _ _ => .inl hw
  exact wp_allocate hw (List.forall_mem_singleton.mpr htarget) fun _ _ _ hd => builtFrom_weakRef hd

theorem ephemeron_eq_ok {valueIsRef : Bool} {d : Descriptor}
    (hd : Object.ephemeron key value valueIsRef = .ok d) :
    d.val = .ephemeron key value valueIsRef := by
  unfold Object.ephemeron at hd
  obtain ⟨_, _, hd⟩ := bind_eq_ok.mp hd
  -- the tag checks of the value
  have hchecked : ∃ hshape, d = ⟨.ephemeron key value valueIsRef, hshape⟩ := by
    dsimp only at hd
    split at hd
    · split at hd
      · exact nomatch hd
      · exact validateDescriptorShape_eq_ok hd
    · split at hd
      · exact nomatch hd
      · exact validateDescriptorShape_eq_ok hd
  obtain ⟨hshape, rfl⟩ := hchecked
  rfl

theorem builtFrom_ephemeron {operands : List Value} {valueIsRef : Bool} {d : Descriptor}
    (hd : Object.ephemeron (operands.getD 0 .nil) (operands.getD 1 .nil) valueIsRef = .ok d) :
    BuiltFrom operands d.val := by
  rw [ephemeron_eq_ok hd]
  refine ⟨fun v hv => ?_, fun m hno => by cases hno⟩
  have hv : v = operands.getD 0 .nil ∨ v = operands.getD 1 .nil := by
    simp only [Payload.allFields, Payload.referenceFields, Payload.weakFields, List.nil_append,
      List.mem_cons] at hv
    rcases hv with hkey | hvalue
    · exact .inl hkey
    · split at hvalue
      · exact .inr (List.mem_singleton.mp hvalue)
      · cases hvalue
  rcases hv with rfl | rfl
  · exact getD_mem_or_nil operands 0
  · exact getD_mem_or_nil operands 1

theorem wp_allocateEphemeron (hw : h.Wf) {valueIsRef : Bool} (hkey : h.Valid key)
    (hvalue : h.Valid value) :
    wp (allocateEphemeron key value valueIsRef) (fun _ h' => h'.Wf) Throws h := by
  have hoperands : ∀ v ∈ [key, value], h.Valid v := by
    simp only [List.forall_mem_cons, List.not_mem_nil, false_implies, implies_true, and_true]
    exact ⟨hkey, hvalue⟩
  unfold allocateEphemeron
  refine wp_query_bind (fun _ _ => ?_) fun _ _ => .inl hw
  exact wp_allocate hw hoperands fun _ _ _ hd => builtFrom_ephemeron hd

theorem record_eq_ok {d : Descriptor} (hd : Object.record l fields refMap = .ok d) :
    d.val = .record l fields refMap := by
  unfold Object.record at hd
  split at hd
  · exact nomatch hd
  · split at hd
    · exact nomatch hd
    · obtain ⟨hshape, rfl⟩ := validateDescriptorShape_eq_ok hd
      rfl

theorem builtFrom_record {operands : List Value} {d : Descriptor}
    (hlength : operands.length = (markedFields fields refMap).length)
    (hd : Object.record l (replaceMarkedFields fields refMap operands) refMap = .ok d) :
    BuiltFrom operands d.val := by
  rw [record_eq_ok hd]
  refine ⟨fun v hv => .inl ?_, nofun⟩
  simp only [Payload.allFields, Payload.referenceFields, Payload.weakFields,
    List.append_nil] at hv
  exact mem_markedFields_replace hlength hv

theorem wp_allocateRecord (hw : h.Wf) (hfields : ∀ v ∈ fields, h.Valid v) :
    wp (allocateRecord l fields refMap) (fun _ h' => h'.Wf) Throws h := by
  unfold allocateRecord
  refine wp_ite (fun _ => .inl hw) fun _ => ?_
  refine wp_query_bind (fun _ _ => ?_) fun _ _ => .inl hw
  have hoperands : ∀ v ∈ markedFields fields refMap, h.Valid v := fun v hv =>
    hfields v (mem_markedFields hv)
  exact wp_allocate hw hoperands fun _ hlength _ hd => builtFrom_record hlength hd

theorem variant_eq_ok {d : Descriptor} (hd : Object.variant l c fields caseRefMaps = .ok d) :
    d.val = .variant l c fields caseRefMaps := by
  unfold Object.variant at hd
  split at hd
  · exact nomatch hd
  · repeat
      split at hd
      · exact nomatch hd
    obtain ⟨hshape, rfl⟩ := validateDescriptorShape_eq_ok hd
    rfl

theorem builtFrom_variant {operands : List Value} {d : Descriptor}
    (hd : Object.variant l c operands caseRefMaps = .ok d) : BuiltFrom operands d.val := by
  rw [variant_eq_ok hd]
  refine ⟨fun v hv => .inl ?_, nofun⟩
  simp only [Payload.allFields, Payload.referenceFields, Payload.weakFields,
    List.append_nil] at hv
  exact mem_markedFields hv

theorem wp_allocateVariant (hw : h.Wf) (hfields : ∀ v ∈ fields, h.Valid v) :
    wp (allocateVariant l c fields caseRefMaps) (fun _ h' => h'.Wf) Throws h := by
  unfold allocateVariant
  refine wp_query_bind (fun _ _ => ?_) fun _ _ => .inl hw
  exact wp_allocate hw hfields fun _ _ _ hd => builtFrom_variant hd

end Allocators

/-! ## Interning -/

section Interning

variable {h : Heap} {source : Value} {id existing : ObjectId} {contentHash : UInt64}
  {bytes : List UInt8} {entries : List InternEntry}

/-- No canonical string has the bytes. -/
def NotInterned (h : Heap) (bytes : List UInt8) : Prop :=
  ∀ entry ∈ h.internTable, ¬h.StringAt entry.canonical bytes

theorem StringAt.unique {bytes' : List UInt8} (hb : h.StringAt id bytes)
    (hb' : h.StringAt id bytes') : bytes = bytes' := by
  obtain ⟨o, ho, hp⟩ := hb
  obtain ⟨o', ho', hp'⟩ := hb'
  rw [ho] at ho'
  cases ho'
  rw [hp] at hp'
  exact Payload.str.inj hp'

/-- A new canonical string, under the hash of its bytes, may enter the table. -/
theorem Interns.insert (hint : h.Interns) (hst : h.Storage) (hid : h.StringAt id bytes)
    (hnew : h.NotInterned bytes) :
    Interns { h with
      internTable := insertInSlotOrder (fun entry => entry.canonical.slot) id.slot
        ⟨stringContentHash bytes, id⟩ h.internTable } := by
  -- the table lists no other identifier of the slot of the new string
  have hslots : ∀ entry ∈ h.internTable, entry.canonical.slot ≠ id.slot := by
    intro entry hentry heq
    obtain ⟨o, ho, -⟩ := hint.listed hentry
    obtain ⟨o', ho', hp'⟩ := hid
    have hsame := hst.eq_of_slot_eq ho ho' heq
    exact hnew entry hentry (hsame ▸ ⟨o', ho', hp'⟩)
  refine ⟨pairwise_insertInSlotOrder hint.ordered rfl hslots, fun entry hentry => ?_, ?_⟩
  · rcases mem_insertInSlotOrder.mp hentry with rfl | hmem
    · exact ⟨bytes, hid, rfl⟩
    · exact hint.hashed entry hmem
  · intro a ha b hb bytes' hbytes hbytes'
    rcases mem_insertInSlotOrder.mp ha with rfl | ha
    · have hsame : bytes = bytes' := hid.unique hbytes
      rcases mem_insertInSlotOrder.mp hb with rfl | hb
      · rfl
      · exact absurd (hsame ▸ hbytes') (hnew b hb)
    · rcases mem_insertInSlotOrder.mp hb with rfl | hb
      · have hsame : bytes = bytes' := hid.unique hbytes'
        exact absurd (hsame ▸ hbytes) (hnew a ha)
      · exact hint.distinct a ha b hb bytes' hbytes hbytes'

/-- Outside incremental compaction the phase clauses are about the objects only. -/
theorem PhaseSound.settled {h' : Heap} (hp : h.PhaseSound)
    (hc : h.incrementalCompactionActive = false) (hu : Updates Eq h h')
    (hphase : h'.phase = h.phase) : h'.PhaseSound := by
  unfold PhaseSound at hp ⊢
  rw [hphase]
  split at hp
  · intro slot o' ho'
    obtain ⟨o, ho, rfl⟩ := hu.objectAt_symm ho'
    exact hp slot o ho
  · refine ⟨fun id hid => hu.current (hp.grey id hid), ?_⟩
    intro slot o' ho' hlive id hid slot' o₁' hr'
    obtain ⟨o, ho, rfl⟩ := hu.objectAt_symm ho'
    obtain ⟨o₁, hr, rfl⟩ := hu.symm.resolve hr'
    exact hp.traces slot o ho hlive id hid slot' o₁ hr
  · next c hcompacting =>
    rw [incrementalCompactionActive, hcompacting] at hc
    cases hc

theorem Wf.intern (hw : h.Wf) (hc : h.incrementalCompactionActive = false)
    (hid : h.StringAt id bytes) (hnew : h.NotInterned bytes) :
    Wf { h with
      internTable := insertInSlotOrder (fun entry => entry.canonical.slot) id.slot
        ⟨stringContentHash bytes, id⟩ h.internTable } := by
  have hs := hw.toSound
  have hu : Updates Eq h { h with
      internTable := insertInSlotOrder (fun entry => entry.canonical.slot) id.slot
        ⟨stringContentHash bytes, id⟩ h.internTable } :=
    updates_of_objects rfl rfl rfl
  exact ⟨hs.frame_interns hu hs.cells hs.handles (hs.remembers.updates hu rfl) rfl rfl
    (hs.interns.insert hs.storage hid hnew), hw.phase.settled hc hu rfl⟩

/-- A failed lookup leaves no entry with the bytes of the string. -/
theorem not_stringAt_of_findInterned (hsource : h.checkedString id = .ok bytes)
    (hhashed : ∀ entry ∈ entries, ∃ bytes, h.StringAt entry.canonical bytes ∧
      entry.contentHash = stringContentHash bytes)
    (hf : h.findInterned (stringContentHash bytes) id entries = .ok none) :
    ∀ entry ∈ entries, ¬h.StringAt entry.canonical bytes := by
  induction entries with
  | nil => exact fun _ hno => by cases hno
  | cons entry entries ih =>
    unfold findInterned at hf
    have htail : h.findInterned (stringContentHash bytes) id entries = .ok none ∧
        ¬h.StringAt entry.canonical bytes := by
      split at hf
      · obtain ⟨equal, hequal, hf⟩ := bind_eq_ok.mp hf
        split at hf
        · cases hf
        · next hne =>
          refine ⟨hf, fun hbytes => hne ?_⟩
          rw [stringEqual, checkedString_of_stringAt hbytes, hsource] at hequal
          cases hequal
          exact beq_self_eq_true bytes
      · next hhash =>
        refine ⟨hf, fun hbytes => hhash ?_⟩
        obtain ⟨bytes', hbytes', hhash'⟩ := hhashed entry List.mem_cons_self
        rw [hhash', hbytes'.unique hbytes]
    intro entry' hentry'
    rcases List.mem_cons.mp hentry' with rfl | hmem
    · exact htail.2
    · exact ih (fun e he => hhashed e (List.mem_cons_of_mem _ he)) htail.1 entry' hmem

/-- Greying a canonical string that the mutator found. -/
theorem wp_shadeInterned (hw : h.Wf) (hexisting : h.Resolves existing) :
    wp (shadeInterned existing) (fun _ h' => h.Barriered h') (fun _ _ => False) h := by
  unfold shadeInterned
  rw [wp_bind, wp_get]
  split
  · next worklist hphase =>
    have hsettled : h.incrementalCompactionActive = false := by
      rw [incrementalCompactionActive, hphase]
    obtain ⟨o, ho⟩ := hexisting.current hsettled
    have hok : h.enqueueMarkValue .major worklist (.object existing) =
        .ok (if o.countsAsLive .major = true then worklist else existing :: worklist) :=
      enqueueMarkValue_object worklist (resolve_of_lookup ho)
    refine wp_query_ok hok ?_
    rw [wp_modify]
    split
    · next hlive =>
      have hsame : { h with phase := .marking worklist } = h := by rw [← hphase]
      rw [hsame]
      exact .refl hw
    · exact hw.shade hphase ⟨o, ho⟩
  · exact .refl hw

/-- A new canonical string. -/
theorem wp_internNewString (hw : h.Wf) (hsource : h.checkedString id = .ok bytes) (hnew : h.NotInterned bytes) :
    wp (internNewString id (stringContentHash bytes)) (fun _ h' => h'.Wf) Throws h := by
  obtain ⟨slot, o, hr, -⟩ := checkedString_eq_ok.mp hsource
  have hvalid : h.Valid (.object id) := valid_object.mpr ⟨slot, o, hr⟩
  unfold internNewString
  rw [wp_bind]
  refine wp_mono (wp_collectBeforeAllocation hw (List.forall_mem_singleton.mpr hvalid))
    (fun operands h₁ hpost => ?_) fun _ _ he => he
  obtain ⟨hw₁, -, -, hcarries⟩ := hpost
  refine wp_query_bind (fun bytes₁ hbytes₁ => ?_) fun _ _ => .inl hw₁
  -- the collection has carried the bytes of the source
  have hsame : bytes₁ = bytes := by
    have hcells := hcarries.cells
    cases hcells with
    | cons hhead _ =>
      obtain ⟨id', heq, hbytes'⟩ := hhead id bytes rfl hsource
      subst heq
      have hbytes₁ : h₁.checkedString id' = .ok bytes₁ := hbytes₁
      rw [hbytes'] at hbytes₁
      exact (Except.ok.inj hbytes₁).symm
  rw [hsame, wp_bind]
  have hfresh : ∀ d, Object.string bytes = .ok d → h₁.Fresh d.val := fun d hd =>
    (builtFrom_string hd : BuiltFrom [] d.val).fresh nofun
  refine wp_mono (wp_allocateDescriptor hw₁ hfresh) (fun canonical h₂ hpost => ?_)
    fun _ _ he => he
  obtain ⟨d, hd, ha⟩ := hpost
  have hstring := ha.string bytes (string_eq_ok hd)
  have hnew₂ : h₂.NotInterned bytes := by
    intro entry hentry hbytes
    obtain ⟨entry₁, hentry₁, hback₁⟩ := ha.interned entry hentry
    obtain ⟨entry₀, hentry₀, hback₀⟩ := hcarries.interned entry₁ hentry₁
    exact hnew entry₀ hentry₀ (hback₀ bytes (hback₁ bytes hbytes))
  rw [wp_bind, wp_modify]
  have hw₃ := ha.wf.intern ha.settled hstring hnew₂
  exact wp_query_bind (fun _ _ => hw₃) fun _ _ => .inl hw₃

theorem wp_internString (hw : h.Wf) (hsource : h.Valid source) :
    wp (internString source) (fun _ h' => h'.Wf) Throws h := by
  unfold internString
  refine wp_query_bind (fun _ _ => ?_) fun _ _ => .inl hw
  rw [wp_bind]
  refine wp_mono (wp_finishActiveCompaction hw (List.forall_mem_singleton.mpr hsource))
    (fun cells₁ h₁ hpost => ?_) fun _ _ he => he.elim
  obtain ⟨hw₁, -⟩ := hpost
  refine wp_query_bind (fun id _ => ?_) fun _ _ => .inl hw₁
  refine wp_query_bind (fun contentHash hhash => ?_) fun _ _ => .inl hw₁
  obtain ⟨bytes, hbytes, rfl⟩ := map_eq_ok.mp hhash
  refine wp_query_bind (fun found hfound => ?_) fun _ _ => .inl hw₁
  cases found with
  | some existing =>
    obtain ⟨⟨slot, o⟩, hr⟩ := findInterned_resolves hfound
    rw [wp_bind]
    exact wp_mono (wp_shadeInterned hw₁ ⟨slot, o, hr⟩) (fun _ _ hb => hb.wf) fun _ _ he => he.elim
  | none =>
    exact wp_internNewString hw₁ hbytes
      (not_stringAt_of_findInterned hbytes hw₁.interns.hashed hfound)

end Interning

/-! ## Handles, roots and the configuration -/

section Handles

variable {h : Heap} {value : Value} {key source destination : ℕ}

/-- Other roots that resolve keep the invariant. -/
theorem Wf.setRoots (hw : h.Wf) {cells : List Value} {handles : List HandleRoot}
    (hcells : ∀ value ∈ cells, h.Valid value) (hhandles : ∀ root ∈ handles, h.Valid root.slot) :
    Wf { h with rootCells := cells, handleRoots := handles } := by
  have hu : Updates Eq h { h with rootCells := cells, handleRoots := handles } :=
    updates_of_objects rfl rfl rfl
  exact ⟨hw.toSound.frame hu hcells hhandles (hw.remembers.updates hu rfl) rfl rfl rfl,
    hw.phase.frame rfl rfl rfl rfl rfl rfl⟩

theorem Wf.setStressConfig (hw : h.Wf) (config : StressConfig) :
    Wf { h with stressConfig := config } := by
  have hu : Updates Eq h { h with stressConfig := config } := updates_of_objects rfl rfl rfl
  exact ⟨hw.toSound.frame hu hw.cells hw.handles (hw.remembers.updates hu rfl) rfl rfl rfl,
    hw.phase.frame rfl rfl rfl rfl rfl rfl⟩

theorem wp_makeHandle (hw : h.Wf) (hvalue : h.Valid value) :
    wp (makeHandle key value) (fun _ h' => h'.Wf) (fun _ _ => False) h := by
  unfold makeHandle
  refine wp_query_ok (validateValue_eq_ok.mpr hvalue) ?_
  rw [wp_modify]
  refine hw.setRoots hw.cells fun root hroot => ?_
  rcases List.mem_append.mp hroot with hmem | hmem
  · exact hw.handles root hmem
  · rw [List.mem_singleton.mp hmem]
    exact hvalue

theorem wp_releaseHandle (hw : h.Wf) :
    wp (releaseHandle key) (fun _ h' => h'.Wf) (fun _ _ => False) h :=
  hw.setRoots hw.cells fun root hroot => hw.handles root (List.mem_of_mem_eraseP hroot)

theorem wp_moveHandle (hw : h.Wf) :
    wp (moveHandle source destination) (fun _ h' => h'.Wf) (fun _ _ => False) h := by
  refine hw.setRoots hw.cells fun root hroot => ?_
  obtain ⟨root', hroot', rfl⟩ := List.mem_map.mp hroot
  have hslot : (if root'.key = source then { root' with key := destination } else root').slot =
      root'.slot := by
    split <;> rfl
  rw [hslot]
  exact hw.handles root' hroot'

end Handles

end Heap

end LanguageRuntime.Gc
