import LanguageRuntime.Gc.GrowthTheorems
import LanguageRuntime.Gc.IdentityTheorems

/-!
# Map stores

A map store that overwrites a value keeps the storage run of the map. One that inserts an entry
first finishes an active compaction and grows the storage run.
-/

namespace LanguageRuntime.Gc

open LanguageRuntime LanguageRuntime.Library

/-! ## Too many slots -/

/-- A slot vector never shrinks. -/
theorem OwnershipInvariant.oversized : OwnershipInvariant Heap.Oversized where
  frame {h h'} ho hobjects _ _ _ hplan := by
    have hlength : h'.objects.length = h.objects.length := by
      simpa [serials] using congrArg List.length hobjects
    refine ⟨hlength ▸ ho.slots, Heap.incrementalCompactionActive_eq_false.mpr fun c' hc' => ?_⟩
    obtain ⟨c, hc, -⟩ := hplan c' hc'
    exact Heap.incrementalCompactionActive_eq_false.mp ho.settled c hc
  compacted {h h'} ho _ r hr hobjects _ _ _ hphase := by
    have hlength : h'.objects.length = r.objects.length := by
      simpa [serials] using congrArg List.length hobjects
    refine ⟨?_, Heap.incrementalCompactionActive_eq_false.mpr fun c hc => ?_⟩
    · rw [hlength, (compactLiveObjects_grows hr).1]
      exact ho.slots
    · rw [hphase] at hc
      cases hc

theorem finishActiveCompaction_oversized (cells : List Value) :
    Preserves Heap.Oversized (finishActiveCompaction cells) := by
  refine .get_bind fun h ho => ?_
  refine wp_ite (fun hactive => ?_) fun _ => ho
  rw [ho.settled] at hactive
  exact nomatch hactive

/-! ## The index of a stored map -/

namespace Heap

section Index

variable {h : Heap} {m newMap : MapPayload} {entries : List MapEntry} {index result : List ℕ}
  {position entry : ℕ} {key value : Value} {existing : Option ℕ}

theorem length_insertMapEntries (hr : h.insertMapEntries entries position index = .ok result) :
    result.length = index.length := by
  induction entries generalizing position index with
  | nil =>
    cases hr
    rfl
  | cons e entries ih =>
    unfold insertMapEntries at hr
    obtain ⟨hash, -, hr⟩ := bind_eq_ok.mp hr
    obtain ⟨bucket, -, hr⟩ := bind_eq_ok.mp hr
    obtain ⟨encoded, -, hr⟩ := bind_eq_ok.mp hr
    rw [ih hr, List.length_set]

/-- The last entry of a map is inserted last. -/
theorem insertMapEntries_append {last : MapEntry}
    (hr : h.insertMapEntries entries position index = .ok result) :
    h.insertMapEntries (entries ++ [last]) position index =
      h.insertMapEntries [last] (position + entries.length) result := by
  induction entries generalizing position index with
  | nil =>
    cases hr
    rfl
  | cons e entries ih =>
    unfold insertMapEntries at hr
    obtain ⟨hash, hhash, hr⟩ := bind_eq_ok.mp hr
    obtain ⟨bucket, hbucket, hr⟩ := bind_eq_ok.mp hr
    obtain ⟨encoded, hencoded, hr⟩ := bind_eq_ok.mp hr
    rw [List.cons_append, insertMapEntries, hhash, ok_bind, hbucket, ok_bind, hencoded, ok_bind,
      ih hr, List.length_cons, Nat.add_right_comm, Nat.add_assoc]

theorem keys_modify (entries : List MapEntry) (entry : ℕ) (f : MapEntry → MapEntry)
    (hf : ∀ e, (f e).key = e.key) :
    List.Forall₂ (fun e e' : MapEntry => e'.key = e.key) entries (entries.modify entry f) := by
  have hrefl : ∀ entries : List MapEntry,
      List.Forall₂ (fun e e' : MapEntry => e'.key = e.key) entries entries := fun entries =>
    List.forall₂_same.mpr fun _ _ => rfl
  induction entries generalizing entry with
  | nil => cases entry <;> exact .nil
  | cons e entries ih =>
    cases entry with
    | zero => exact .cons (hf e) (hrefl entries)
    | succ entry => exact .cons rfl (ih entry)

theorem IndexedMap.overwrite (hm : h.IndexedMap m) : h.IndexedMap (m.overwrite entry value) where
  capacity := by
    show mapLookupIndexCapacity (m.entries.modify entry _).length = _
    rw [List.length_modify]
    exact hm.capacity
  index := by
    have hkeys := keys_modify m.entries entry
      (fun e : MapEntry => { e with value := value }) fun _ => rfl
    refine insertMapEntries_congr (hkeys.imp fun e e' hkey hash hhash => ?_) hm.index
    rwa [hkey]

theorem buildMapLookupIndex_eq_ok {capacity : ℕ}
    (hok : h.buildMapLookupIndex m capacity = .ok result) : result.length = capacity ∧
      h.insertMapEntries m.entries 0 (List.replicate capacity 0) = .ok result := by
  unfold buildMapLookupIndex at hok
  split at hok
  · next hzero =>
    split at hok
    · next hempty =>
      cases hok
      rw [List.isEmpty_iff.mp hempty, hzero]
      exact ⟨rfl, rfl⟩
    · exact nomatch hok
  · split at hok
    · exact nomatch hok
    · refine ⟨?_, hok⟩
      rw [length_insertMapEntries hok, List.length_replicate]

/-- The index that an insertion extends or rebuilds is the index of the longer map. -/
theorem IndexedMap.insert (hm : h.IndexedMap m) (hok : m.insert h key value = .ok newMap) :
    h.IndexedMap newMap ∧ newMap = { m with
      entries := m.entries ++ [⟨key, value⟩], lookupIndex := newMap.lookupIndex } := by
  unfold MapPayload.insert at hok
  obtain ⟨capacity, hcapacity, hok⟩ := bind_eq_ok.mp hok
  obtain ⟨hash, hhash, hok⟩ := bind_eq_ok.mp hok
  -- the index before the insertion is the one of the old entries, of the new capacity
  have hbefore : ∃ before, before.length = capacity ∧
      h.insertMapEntries m.entries 0 (List.replicate capacity 0) = .ok before ∧
      (do let bucket ← findOpenMapBucket before hash
          return { m with
            entries := m.entries ++ [⟨key, value⟩]
            lookupIndex := before.set bucket (← encodedMapEntryIndex m.entries.length) } :
        Except HeapError MapPayload) = .ok newMap := by
    dsimp only at hok
    split at hok
    · obtain ⟨before, hbuild, hok⟩ := bind_eq_ok.mp hok
      obtain ⟨hlength, hbuilt⟩ := buildMapLookupIndex_eq_ok hbuild
      exact ⟨before, hlength, hbuilt, hok⟩
    · next hsame =>
      have hlength : m.lookupIndex.length = capacity := not_not.mp hsame
      exact ⟨m.lookupIndex, hlength, hlength ▸ hm.index, hok⟩
  obtain ⟨before, hlength, hbuilt, hok⟩ := hbefore
  obtain ⟨bucket, hbucket, hok⟩ := bind_eq_ok.mp hok
  obtain ⟨encoded, hencoded, hok⟩ := bind_eq_ok.mp hok
  cases hok
  refine ⟨⟨?_, ?_⟩, rfl⟩
  · dsimp only
    rw [List.length_append, List.length_set, hlength]
    exact hcapacity
  · dsimp only
    rw [List.length_set, hlength, insertMapEntries_append hbuilt, Nat.zero_add, insertMapEntries,
      hhash, ok_bind, hbucket, ok_bind, hencoded, ok_bind, insertMapEntries]

theorem mem_modify {f : MapEntry → MapEntry} {e : MapEntry} (he : e ∈ entries.modify entry f) :
    e ∈ entries ∨ ∃ e' ∈ entries, e = f e' := by
  obtain ⟨i, hi⟩ := List.mem_iff_getElem?.mp he
  rw [List.getElem?_modify, Option.map_eq_map, Option.map_eq_some_iff] at hi
  obtain ⟨e', he', rfl⟩ := hi
  have hmem := List.mem_of_getElem? he'
  split
  · exact .inr ⟨e', hmem, rfl⟩
  · exact .inl hmem

theorem mem_referenceFields_map {v : Value} : v ∈ (Payload.map m).referenceFields ↔
    ∃ e ∈ m.entries, m.keyIsRef = true ∧ v = e.key ∨ m.valueIsRef = true ∧ v = e.value := by
  show v ∈ m.entries.flatMap _ ↔ _
  rw [List.mem_flatMap]
  refine exists_congr fun e => and_congr_right fun _ => ?_
  rw [MapEntry.referenceFields, List.mem_append]
  refine or_congr ?_ ?_ <;> split <;> simp_all

/-- `newMap` is the map `m` after a store of `value` under `key`. -/
structure MapStore (h : Heap) (m : MapPayload) (existing : Option ℕ) (key value : Value)
    (newMap : MapPayload) : Prop where
  indexed : h.IndexedMap newMap
  width : (Payload.map newMap).storageSlotCount =
    (Payload.map m).storageSlotCount + if existing.isSome then 0 else 2
  fields : ∀ v ∈ (Payload.map newMap).referenceFields,
    v ∈ (Payload.map m).referenceFields ∨ v = value ∨ existing = none ∧ v = key

theorem mapStore_of_store (hm : h.IndexedMap m)
    (hok : m.store h existing key value = .ok newMap) :
    h.MapStore m existing key value newMap := by
  cases existing with
  | some entry =>
    cases hok
    refine ⟨hm.overwrite, ?_, fun v hv => ?_⟩
    · show 1 + 2 * (m.entries.modify entry _).length = 1 + 2 * m.entries.length + 0
      rw [List.length_modify, Nat.add_zero]
    · obtain ⟨e, he, hfield⟩ := mem_referenceFields_map.mp hv
      rcases mem_modify he with hmem | ⟨e', hmem, rfl⟩
      · exact .inl (mem_referenceFields_map.mpr ⟨e, hmem, hfield⟩)
      · rcases hfield with hkey | hvalue
        · exact .inl (mem_referenceFields_map.mpr ⟨e', hmem, .inl hkey⟩)
        · exact .inr (.inl hvalue.2)
  | none =>
    obtain ⟨hindexed, heq⟩ := hm.insert hok
    refine ⟨hindexed, ?_, fun v hv => ?_⟩
    · rw [heq]
      show 1 + 2 * (m.entries ++ [_]).length = 1 + 2 * m.entries.length + 2
      rw [List.length_append, List.length_singleton]
      omega
    · rw [heq] at hv
      obtain ⟨e, he, hfield⟩ := mem_referenceFields_map.mp hv
      rcases List.mem_append.mp he with hmem | hmem
      · exact .inl (mem_referenceFields_map.mpr ⟨e, hmem, hfield⟩)
      · rw [List.mem_singleton.mp hmem] at hfield
        rcases hfield with hkey | hvalue
        · exact .inr (.inr ⟨rfl, hkey.2⟩)
        · exact .inr (.inl hvalue.2)

/-- Overwriting a value commutes with the mirror of the map. -/
theorem mirror_overwrite (c : IncrementalCompaction) (m : MapPayload) (entry : ℕ) (value : Value) :
    c.mirror (.map (m.overwrite entry value)) =
      .map ((m.forward fun id => some (c.sourceOf id)).overwrite entry
        (if m.valueIsRef then value.mapObject c.sourceOf else value)) := by
  show Payload.map (MapPayload.forward _ (m.overwrite entry value)) = .map _
  congr 1
  simp only [MapPayload.forward, MapPayload.overwrite]
  congr 1
  apply List.ext_getElem?
  intro i
  rw [List.getElem?_map, List.getElem?_modify, List.getElem?_modify, List.getElem?_map]
  cases m.entries[i]? with
  | none => rfl
  | some e =>
    simp only [Option.map_eq_map, Option.map_some]
    split <;> rfl

theorem Wf.mirrorMapEntry_eq_ok (hw : h.Wf) {c : IncrementalCompaction}
    (hphase : h.phase = .compacting c) (hvalue : h.Valid value) (hentry : entry < m.entries.length)
    (h' : Heap) : mirrorMapEntry (some entry) value h' c (c.mirror (.map m)) =
      .ok (c.mirror (.map (m.overwrite entry value))) := by
  have hlength : ¬(m.forward fun id => some (c.sourceOf id)).entries.length ≤ entry := by
    rw [MapPayload.forward, List.length_map]
    omega
  rw [mirror_overwrite]
  show (if (m.forward fun id => some (c.sourceOf id)).entries.length ≤ entry then _ else _) = _
  rw [if_neg hlength]
  show _ <$> h'.shadowFieldValue c m.valueIsRef value = _
  rw [hw.shadowFieldValue_eq_ok hphase _ hvalue h']
  rfl

end Index

/-! ## The operands of a map store -/

section Operands

variable {h : Heap} {m : MapPayload} {id : ObjectId} {key value : Value} {entry : ℕ}
  {existing : Option ℕ}

theorem valid_of_validateMapKey (hok : h.validateMapKey m key = .ok ()) : h.Valid key := by
  unfold validateMapKey at hok
  cases key with
  | object id =>
    split at hok
    · obtain ⟨bytes, hbytes, -⟩ := bind_eq_ok.mp hok
      obtain ⟨slot, o, hr, -⟩ := checkedString_eq_ok.mp hbytes
      exact valid_object.mpr ⟨slot, o, hr⟩
    · exact nomatch hok
  | _ => exact valid_of_not_isObject rfl

theorem valid_of_validateMapValue (hok : h.validateMapValue m value = .ok ()) :
    h.Valid value := by
  unfold validateMapValue at hok
  cases value with
  | object id =>
    split at hok
    · obtain ⟨slot, hslot, -⟩ := bind_eq_ok.mp hok
      obtain ⟨o, hr⟩ := checkedSlot_eq_ok.mp hslot
      exact valid_object.mpr ⟨slot, o, hr⟩
    · exact nomatch hok
  | _ => exact valid_of_not_isObject rfl

theorem lt_of_probeMapEntry {remaining bucket : ℕ}
    (hok : h.probeMapEntry m key remaining bucket = .ok (some entry)) :
    entry < m.entries.length := by
  induction remaining generalizing bucket with
  | zero => exact nomatch hok
  | succ remaining ih =>
    unfold probeMapEntry at hok
    split at hok
    · exact nomatch hok
    · split at hok
      · exact nomatch hok
      · next stored hstored =>
        obtain ⟨equal, hequal, hok⟩ := bind_eq_ok.mp hok
        split at hok
        · cases hok
          exact (List.getElem?_eq_some_iff.mp hstored).1
        · exact ih hok

/-- The lookup that precedes a store. -/
theorem findMapEntry_eq_ok (hok : h.findMapEntry id key = .ok existing) :
    ∃ slot o m, h.resolve id = .ok (slot, o) ∧ o.payload = .map m ∧ h.Valid key ∧
      ∀ entry, existing = some entry → entry < m.entries.length := by
  unfold findMapEntry at hok
  obtain ⟨⟨slot, o, m⟩, hfound, hok⟩ := bind_eq_ok.mp hok
  obtain ⟨hr, hp⟩ := checkedMap_eq_ok hfound
  obtain ⟨_, hkey, hok⟩ := bind_eq_ok.mp hok
  refine ⟨slot, o, m, hr, hp, valid_of_validateMapKey hkey, ?_⟩
  rintro entry rfl
  split at hok
  · exact nomatch hok
  · obtain ⟨hash, -, hok⟩ := bind_eq_ok.mp hok
    exact lt_of_probeMapEntry hok

end Operands

/-! ## Map stores -/

section MapStores

variable {h : Heap} {m : MapPayload} {id : ObjectId} {slot : ℕ} {o : Object} {key value : Value}
  {existing : Option ℕ} {inserted : Option Value}

theorem refersToYoung_eq_ok (hv : h.Valid value) : ∃ young, h.refersToYoung value = .ok young ∧
    (young = true ↔ ∃ id, value = .object id ∧ h.NamesYoung id) := by
  cases value with
  | object id =>
    obtain ⟨slot, o, hr⟩ := valid_object.mp hv
    refine ⟨o.isYoung, ?_, ?_⟩
    · rw [refersToYoung, hr]
      rfl
    · rw [← namesYoung_of_resolve hr]
      exact ⟨fun hyoung => ⟨id, rfl, hyoung⟩, fun ⟨_, heq, hyoung⟩ => Value.object.inj heq ▸ hyoung⟩
  | _ => exact ⟨false, rfl, nofun, fun ⟨_, heq, _⟩ => nomatch heq⟩

/-- The write barrier of a map remembers the owner if the key it inserts or the value is young. -/
theorem wp_recordMapWriteBarrierIfNeeded (hw : h.Wf) (hr : h.resolve id = .ok (slot, o))
    (hkey : ∀ key, inserted = some key → h.Valid key ∧ ¬h.RemembersStale id key)
    (hvalue : h.Valid value) (hstale : ¬h.RemembersStale id value) :
    wp (recordMapWriteBarrierIfNeeded id inserted value)
      (fun _ h' => h.Barriered h' ∧ h'.Recorded slot o value ∧
        ∀ key, inserted = some key → h'.Recorded slot o key)
      (fun _ _ => False) h := by
  unfold recordMapWriteBarrierIfNeeded
  refine wp_query_ok hr ?_
  refine wp_ite (fun hyoung => ?_) fun hold => ?_
  · have hnot : o.isOld = false := by simpa using hyoung
    refine ⟨.refl hw, fun hold => ?_, fun _ _ hold => ?_⟩ <;>
    · rw [hnot] at hold
      cases hold
  · have hold : o.isOld = true := by simpa using hold
    have hyoungKey : ∃ young, inserted.elim (.ok false) h.refersToYoung = .ok young ∧
        (young = true ↔ ∃ key, inserted = some key ∧ ∃ id, key = .object id ∧ h.NamesYoung id) := by
      cases inserted with
      | none =>
        refine ⟨false, rfl, fun hyoung => Bool.noConfusion hyoung, ?_⟩
        rintro ⟨_, heq, -⟩
        cases heq
      | some key =>
        obtain ⟨young, hyoung, hiff⟩ := refersToYoung_eq_ok (hkey key rfl).1
        refine ⟨young, hyoung, hiff.trans ⟨fun hex => ⟨key, rfl, hex⟩, ?_⟩⟩
        rintro ⟨_, heq, hex⟩
        exact Option.some.inj heq ▸ hex
    obtain ⟨youngKey, hyoungKey, hkeyIff⟩ := hyoungKey
    obtain ⟨youngValue, hyoungValue, hvalueIff⟩ := refersToYoung_eq_ok hvalue
    have hbarrier : wp (do
        if youngKey || youngValue then
          recordRememberedObject id
          return true
        return false)
        (fun _ h' => h.Barriered h' ∧ h'.Recorded slot o value ∧
          ∀ key, inserted = some key → h'.Recorded slot o key) (fun _ _ => False) h := by
      refine wp_ite (fun hyoung => ?_) fun hno => ?_
      · have hcurrent : h.Current id := by
          by_contra hnot
          rcases Bool.or_eq_true_iff.mp hyoung with hk | hv
          · obtain ⟨key, hins, target, htarget, hyoung⟩ := hkeyIff.mp hk
            exact (hkey key hins).2 ⟨⟨slot, o, hr, hold⟩, hnot, target, htarget, hyoung⟩
          · obtain ⟨target, htarget, hyoung⟩ := hvalueIff.mp hv
            exact hstale ⟨⟨slot, o, hr, hold⟩, hnot, target, htarget, hyoung⟩
        obtain ⟨o₁, ho₁⟩ := hcurrent
        have hsame := resolve_of_lookup ho₁
        rw [hr] at hsame
        cases hsame
        rw [wp_bind]
        refine wp_mono (wp_recordRememberedObject hw ho₁ hold) (fun _ h' hpost => ?_)
          fun _ _ he => he
        rw [wp_pure]
        obtain ⟨hb, hmem⟩ := hpost
        have hrecorded : ∀ value, h'.Recorded id.slot o value := by
          intro value _ _ _ _
          rw [hb.currentId, hw.storage.currentId_of_lookup ho₁]
          exact hmem
        exact ⟨hb, hrecorded value, fun key _ => hrecorded key⟩
      · rw [wp_pure]
        refine ⟨.refl hw, fun _ target htarget hyoung => ?_, fun key hins _ target htarget hyoung => ?_⟩
        · have hyes : youngValue = true := hvalueIff.mpr ⟨target, htarget, hyoung⟩
          rw [hyes, Bool.or_true] at hno
          exact absurd rfl hno
        · have hyes : youngKey = true := hkeyIff.mpr ⟨key, hins, target, htarget, hyoung⟩
          rw [hyes, Bool.true_or] at hno
          exact absurd rfl hno
    cases inserted with
    | none =>
      cases hyoungKey
      exact wp_query_ok hyoungValue hbarrier
    | some key =>
      refine wp_query_ok hyoungKey ?_
      exact wp_query_ok hyoungValue hbarrier

theorem Barriered.remembersStale {h' : Heap} (hb : h.Barriered h')
    (hstale : h'.RemembersStale id value) : h.RemembersStale id value := by
  obtain ⟨⟨slot, o, hr, hold⟩, hnot, target, heq, hyoung⟩ := hstale
  refine ⟨⟨slot, o, hb.resolve_iff.mp hr, hold⟩, ?_, target, heq, hb.namesYoung.mp hyoung⟩
  rintro ⟨o', ho'⟩
  exact hnot ⟨o', (hb.lookup id).trans ho'⟩

/-- The object at `slot` has room for the map after the store. -/
def MapFits (h : Heap) (slot : ℕ) (o : Object) (m : MapPayload) : Option ℕ → Prop
  | some entry => entry < m.entries.length
  | none => h.incrementalCompactionActive = false ∧ h.Fits slot (o.width + 2)

theorem Barriered.phase_compacting {h' : Heap} {c : IncrementalCompaction} (hb : h.Barriered h')
    (hphase : h'.phase = .compacting c) : h.phase = .compacting c := by
  rcases hb.phase with hsame | ⟨_, _, _, hmarking, -⟩
  · rw [← hsame, hphase]
  · rw [hmarking] at hphase
    exact nomatch hphase

theorem Barriered.mapFits {h' : Heap} (hb : h.Barriered h') (hfits : h.MapFits slot o m existing) :
    h'.MapFits slot o m existing := by
  cases existing with
  | some entry => exact hfits
  | none =>
    obtain ⟨hc, hfits⟩ := hfits
    refine ⟨?_, ?_, ?_⟩
    · cases hphase : h'.phase with
      | compacting c =>
        rw [incrementalCompactionActive, hb.phase_compacting hphase] at hc
        cases hc
      | _ => rw [incrementalCompactionActive, hphase]
    · rw [hb.rest]
      exact hfits.inside
    · intro slot' o' hlt ho'
      rw [hb.objectAt] at ho'
      exact hfits.clear slot' o' hlt ho'

theorem MapFits.storable (hfits : h.MapFits slot o m existing) (hw : h.Wf)
    (ho : h.objectAt slot = some o) (hp : o.payload = .map m) {newMap : MapPayload}
    (hstore : h.MapStore m existing key value newMap)
    (hshape : (Payload.map newMap).DescriptorShape) (hkey : h.Valid key) (hvalue : h.Valid value)
    (hgreyed : h.Greyed o key ∧ h.Greyed o value) (hvalueRecorded : h.Recorded slot o value)
    (hkeyRecorded : existing = none → h.Recorded slot o key) :
    h.Storable slot o ⟨.map newMap, hshape⟩ where
  kind := by rw [hp]; rfl
  mutable := by rw [hp]; exact nofun
  fits := by
    show h.Fits slot (Payload.map newMap).storageSlotCount
    rw [hstore.width, ← hp]
    cases existing with
    | some entry => exact hw.storage.fits ho
    | none => exact hfits.2
  fields v hv := by
    have hv : v ∈ (Payload.map newMap).referenceFields := by
      simpa only [Payload.allFields, Payload.weakFields, List.append_nil] using hv
    rcases hstore.fields v hv with hold | rfl | ⟨-, rfl⟩
    · exact hw.fields slot o ho v (List.mem_append_left _ (hp ▸ hold))
    · exact hvalue
    · exact hkey
  greyed v hv := by
    rcases hstore.fields v hv with hold | rfl | ⟨-, rfl⟩
    · intro worklist hphase hmarked id heq slot' o' hr
      exact (hw.triColour hphase).traces slot o ho hmarked id (heq ▸ hp ▸ hold) slot' o' hr
    · exact hgreyed.2
    · exact hgreyed.1
  recorded v hv := by
    rcases hstore.fields v hv with hold | rfl | ⟨hnone, rfl⟩
    · intro hisOld id heq hyoung
      exact hw.remembers.complete slot o ho hisOld id (heq ▸ hp ▸ hold) hyoung
    · exact hvalueRecorded
    · exact hkeyRecorded hnone
  indexed m' hm' := Payload.map.inj hm' ▸ hstore.indexed

/-- Outside incremental compaction no store remembers a stale identifier. -/
theorem not_remembersStale (hc : h.incrementalCompactionActive = false) :
    ¬h.RemembersStale id value := fun hstale =>
  let ⟨slot, o, hr, _⟩ := hstale.old
  hstale.stale (Resolves.current ⟨slot, o, hr⟩ hc)

/-- The map `p'` is the map `p` after a store. -/
def MapStoredBy (h : Heap) (existing : Option ℕ) (key value : Value) (p p' : Payload) : Prop :=
  ∃ m m' h₁, p = .map m ∧ p' = .map m' ∧
    m.store h₁ existing (if m.keyIsRef then key.mapObject h.canonical else key)
      (if m.valueIsRef then value.mapObject h.canonical else value) = .ok m'

/-- Once the map has room, the entry is stored. -/
theorem wp_publishMapEntry {Q : Unit → Heap → Prop} {E : HeapError → Heap → Prop} (hw : h.Wf)
    (hr : h.resolve id = .ok (slot, o)) (hp : o.payload = .map m) (hkey : h.Valid key)
    (hvalue : h.Valid value) (hstale : ¬h.RemembersStale id value)
    (hfits : h.MapFits slot o m existing)
    (hafter : h.AfterStore id (h.MapStoredBy existing key value) Q E) :
    wp (publishMapEntry id existing key value) Q E h := by
  unfold publishMapEntry
  refine wp_query_ok (checkedMap_of_resolve hr hp) ?_
  dsimp only
  refine wp_query_ok (hw.canonicalizeReference_eq_ok m.keyIsRef fun _ => hkey) ?_
  refine wp_query_ok (hw.canonicalizeReference_eq_ok m.valueIsRef fun _ => hvalue) ?_
  have hcanonical : ∀ (isRef : Bool) (v : Value), h.Valid v →
      h.Valid (if isRef then v.mapObject h.canonical else v) := by
    intro isRef v hv
    split
    · exact hw.storage.valid_canonical hv
    · exact hv
  have hkey' := hcanonical m.keyIsRef key hkey
  have hvalue' := hcanonical m.valueIsRef value hvalue
  have hstale' : ¬h.RemembersStale id (if m.valueIsRef then value.mapObject h.canonical else value) := by
    split
    · exact fun hs => hstale (hs.of_canonical hw.storage)
    · exact hstale
  have hstored : ∀ m' h₁, m.store h₁ existing (if m.keyIsRef then key.mapObject h.canonical else key)
      (if m.valueIsRef then value.mapObject h.canonical else value) = .ok m' →
        h.MapStoredBy existing key value o.payload (.map m') :=
    fun m' h₁ hok => ⟨m, m', h₁, hp, rfl, hok⟩
  generalize (if m.keyIsRef then key.mapObject h.canonical else key) = key' at hkey' hstored ⊢
  generalize (if m.valueIsRef then value.mapObject h.canonical else value) = value'
    at hvalue' hstale' hstored ⊢
  rw [wp_bind]
  refine wp_mono (wp_incrementalWriteBarrierBeforePublish hw hr) (fun _ h₁ hpost => ?_)
    fun _ _ he => absurd hkey' he.2
  obtain ⟨hb₁, hgreyKey, -⟩ := hpost
  rw [wp_bind]
  refine wp_mono (wp_incrementalWriteBarrierBeforePublish hb₁.wf (hb₁.resolve_iff.mpr hr))
    (fun _ h₂ hpost => ?_) fun _ _ he => absurd (hb₁.valid.mpr hvalue') he.2
  obtain ⟨hb₂, hgreyValue, -⟩ := hpost
  have hb₁₂ := hb₁.trans hb₂
  rw [wp_bind]
  refine wp_mono (wp_recordMapWriteBarrierIfNeeded hb₂.wf (hb₁₂.resolve_iff.mpr hr)
    (fun k hk => ?_) (hb₁₂.valid.mpr hvalue') fun hs => hstale' (hb₁₂.remembersStale hs))
    (fun triggered h₃ hpost => ?_) fun _ _ he => he.elim
  · -- a key is only inserted outside incremental compaction
    have hk : existing = none ∧ key' = k := by
      cases existing with
      | none => exact ⟨rfl, Option.some.inj hk⟩
      | some entry => cases hk
    obtain ⟨rfl, rfl⟩ := hk
    exact ⟨hb₁₂.valid.mpr hkey', not_remembersStale (hb₁₂.mapFits hfits).1⟩
  obtain ⟨hb₂₃, hrecordedValue, hrecordedKey⟩ := hpost
  have hb := hb₁₂.trans hb₂₃
  have hw₃ := hb.wf
  have hr₃ := hb.resolve_iff.mpr hr
  have ho₃ := objectAt_of_resolve hr₃
  refine wp_query_ok (checkedMap_of_resolve hr₃ hp) ?_
  dsimp only
  refine wp_query_bind (fun newMap hnew => ?_) fun e _ => hafter.failed e h₃ hb
  have hstore := mapStore_of_store (hw₃.maps slot o m ho₃ hp) hnew
  by_cases hshape : (Payload.map newMap).DescriptorShape
  · refine wp_query_ok (validateDescriptorShape_of_shape hshape) ?_
    have hd : h₃.Storable slot o ⟨.map newMap, hshape⟩ :=
      (hb.mapFits hfits).storable hw₃ ho₃ hp hstore hshape (hb.valid.mpr hkey')
        (hb.valid.mpr hvalue') ⟨(hb₂.trans hb₂₃).greyed hgreyKey, hb₂₃.greyed hgreyValue⟩
        hrecordedValue fun hnone => hrecordedKey _ (by rw [hnone]; rfl)
    have hmirror : ∀ c, h₃.phase = .compacting c →
        (Payload.map newMap).storageSlotCount = o.width ∧ ∀ h',
          mirrorMapEntry existing value' h' c (c.mirror o.payload) = .ok (c.mirror (.map newMap)) := by
      intro c hphase
      cases existing with
      | none =>
        have hc := (hb.mapFits hfits).1
        rw [incrementalCompactionActive, hphase] at hc
        cases hc
      | some entry =>
        cases hnew
        refine ⟨?_, fun h' => ?_⟩
        · rw [hstore.width, ← hp]
          rfl
        · rw [hp]
          exact hw₃.mirrorMapEntry_eq_ok hphase (hb.valid.mpr hvalue') hfits h'
    have hpublish := hw₃.wp_publish hr₃ hd hmirror
    rw [wp_bind, wp_modify] at hpublish
    rw [wp_bind, wp_modify]
    have hp' : h₃.Publishes (h₃.setPayload slot ⟨.map newMap, hshape⟩) slot o
        ⟨.map newMap, hshape⟩ := publishes_setPayload ho₃
    have hindexed := (hp'.kindred ho₃ hd.kind hd.mutable).indexedMap hstore.indexed
    refine wp_query_ok (validateMapLookupIndex_eq_ok hindexed.capacity hindexed.index) ?_
    rw [wp_bind]
    refine wp_mono hpublish (fun _ h₄ hpost => ?_) fun _ _ he => he.elim
    obtain ⟨hw₄, hp₄⟩ := hpost
    have hu := hp₄.kindred ho₃ hd.kind hd.mutable
    have hroots : ∀ v ∈ [.object id, key', value'], h₄.Valid v := by
      intro v hv
      refine hu.valid (hb.valid.mpr ?_)
      simp only [List.mem_cons, List.not_mem_nil, or_false] at hv
      rcases hv with rfl | rfl | rfl
      · exact valid_object.mpr ⟨slot, o, hr⟩
      · exact hkey'
      · exact hvalue'
    have hafter₄ := fun triggered => hafter.stored slot o _ h₄ triggered _ hr
      (hstored newMap h₃ hnew) ⟨hw₄, h₃, hb, hp₄⟩ hroots
    rw [wp_bind, wp_get]
    refine wp_ite (fun hcollects => ?_) fun _ => ?_
    · have hcollect := hafter₄ triggered
      rw [collectAfterBarrier, wp_bind, wp_get, if_pos hcollects] at hcollect
      exact hcollect
    · have hs₄ := hw₄.toSound
      refine wp_query_ok (validateHeapStorageLayout_eq_ok hs₄.storage hs₄.maps) ?_
      have hremembers : h₄.validateRememberedSet = .ok () :=
        validateRememberedSet_eq_ok hs₄.remembers fun s o' ho' v hv =>
          hs₄.fields s o' ho' v (List.mem_append_left _ hv)
      rw [wp_query, hremembers, yields_ok]
      exact hafter₄ false
  · refine wp_query_bind (fun d hd => ?_) fun e _ => hafter.failed e h₃ hb
    rw [validateDescriptorShape, dif_neg hshape] at hd
    cases hd

theorem asObject_eq_ok (hok : asObject value = .ok id) : value = .object id := by
  cases value with
  | object id' =>
    cases hok
    rfl
  | _ => exact nomatch hok

theorem eq_cons_of_asObject {cells : List Value} (hok : asObject (cells.getD 0 .nil) = .ok id) :
    ∃ rest, cells = .object id :: rest := by
  cases cells with
  | nil => exact nomatch hok
  | cons value rest =>
    have hvalue : value = .object id := asObject_eq_ok hok
    exact ⟨rest, hvalue ▸ rfl⟩

/-- Room for one more entry, in what the finish of a compaction has left. -/
theorem wp_prepareMapInsertion {F : List Value → Heap → Prop} (hw : h.Wf)
    (hcells : ∀ v ∈ [.object id, key, value], h.Valid v)
    (hfinish : wp (finishActiveCompaction [.object id, key, value]) F (fun _ _ => False) h) :
    wp (prepareMapInsertion id key value)
      (fun cells' h' => ∃ h₁ id₁ rest slot o m, F (.object id₁ :: rest) h₁ ∧ h₁.Wf ∧
        h₁.incrementalCompactionActive = false ∧ rest.length = 2 ∧ (∀ v ∈ rest, h₁.Valid v) ∧
        h₁.resolve id₁ = .ok (slot, o) ∧ o.payload = .map m ∧
        h₁.Grew h' slot (o.width + 2) o (.object id₁ :: rest) cells')
      (fun _ h' => h'.Wf ∧ ∃ cells₁, F cells₁ h') h := by
  unfold prepareMapInsertion
  rw [wp_bind]
  refine wp_mono (wp_and (wp_finishActiveCompaction hw hcells) hfinish)
    (fun cells₁ h₁ hpost => ?_) fun _ _ he => he.1.elim
  obtain ⟨⟨hw₁, hcells₁, hlength₁, hc₁, -⟩, hF⟩ := hpost
  have hfailed : h₁.Wf ∧ ∃ cells₁, F cells₁ h₁ := ⟨hw₁, cells₁, hF⟩
  refine wp_query_bind (fun ownerId howner => ?_) fun _ _ => hfailed
  refine wp_query_bind (fun found hfound => ?_) fun _ _ => hfailed
  obtain ⟨slot, o, m⟩ := found
  obtain ⟨hr, hp⟩ := checkedMap_eq_ok hfound
  refine wp_ite (fun _ => hfailed) fun _ => ?_
  obtain ⟨rest, rfl⟩ := eq_cons_of_asObject howner
  have hrest : ∀ v ∈ rest, h₁.Valid v := fun v hv => hcells₁ v (List.mem_cons_of_mem _ hv)
  exact wp_mono (wp_ensureMapGrowthStorage hw₁ hc₁ hr hp (Nat.le_add_right _ _) hrest)
    (fun cells' h' hgrew => ⟨h₁, ownerId, rest, slot, o, m, hF, hw₁, hc₁,
      Nat.succ_injective hlength₁, hrest, hr, hp, hgrew⟩) fun _ _ he => he.symm ▸ hfailed

/-- A map with room for one more entry, and the key and the value to be stored in it. -/
def ReadyToInsert (h : Heap) (cells : List Value) : Prop :=
  ∃ id key value slot o m, cells = [.object id, key, value] ∧ h.resolve id = .ok (slot, o) ∧
    o.payload = .map m ∧ h.Valid key ∧ h.Valid value ∧ h.MapFits slot o m none

theorem Roomy.readyToInsert {h' : Heap} {cells' rest : List Value}
    (hroomy : h'.Roomy o (o.width + 2) (.object id :: rest) cells') (hlength : rest.length = 2)
    (hp : o.payload = .map m) : h'.ReadyToInsert cells' := by
  obtain ⟨id', slot', o', F, hcell, hr', hp', hfits⟩ := hroomy.owner
  have hlength' : cells'.length = 3 := by
    have harity := hroomy.arity
    rw [List.length_cons, hlength] at harity
    exact harity
  obtain ⟨v₀, v₁, v₂, rfl⟩ := List.length_eq_three.mp hlength'
  have hwidth : o'.width = o.width := by
    rw [Object.width, hp']
    exact Payload.storageSlotCount_forward _ _
  refine ⟨id', v₁, v₂, slot', o', m.forward F, by rw [← hcell]; rfl, hr', by rw [hp', hp]; rfl,
    hroomy.valid _ (by simp), hroomy.valid _ (by simp), hroomy.settled, ?_⟩
  rwa [hwidth]

/-- A map store overwrites the value of the key, or it makes room and inserts an entry. -/
theorem wp_storeMapEntry_of {Q : Unit → Heap → Prop} {E : HeapError → Heap → Prop}
    (hfailed : ∀ e, E e h)
    (hoverwrites : ∀ entry slot o m, h.findMapEntry id key = .ok (some entry) →
      h.resolve id = .ok (slot, o) → o.payload = .map m → h.Valid key → h.Valid value →
      h.MapFits slot o m (some entry) → wp (publishMapEntry id (some entry) key value) Q E h)
    (hinserts : ∀ slot o m, h.findMapEntry id key = .ok none → h.resolve id = .ok (slot, o) →
      o.payload = .map m → (∀ v ∈ [.object id, key, value], h.Valid v) →
      wp (prepareMapInsertion id key value >>= publishInserted) Q E h) :
    wp (storeMapEntry id key value) Q E h := by
  unfold storeMapEntry
  refine wp_query_bind (fun existing hexisting => ?_) fun e _ => hfailed e
  obtain ⟨slot, o, m, hr, hp, hkey, hentry⟩ := findMapEntry_eq_ok hexisting
  refine wp_query_ok (checkedMap_of_resolve hr hp) ?_
  dsimp only
  refine wp_query_bind (fun _ hvalidated => ?_) fun e _ => hfailed e
  have hvalue := valid_of_validateMapValue hvalidated
  cases existing with
  | some entry =>
    show wp (pure [.object id, key, value] >>= _) _ _ h
    rw [wp_bind, wp_pure]
    have hoperand : asObject ([.object id, key, value].getD 0 .nil) = .ok id := rfl
    refine wp_query_ok hoperand ?_
    exact hoverwrites entry slot o m hexisting hr hp hkey hvalue (hentry entry rfl)
  | none =>
    refine hinserts slot o m hexisting hr hp ?_
    simp only [List.forall_mem_cons, List.not_mem_nil, false_implies, implies_true, and_true]
    exact ⟨valid_object.mpr ⟨slot, o, hr⟩, hkey, hvalue⟩

/-- A map store keeps the invariant, unless it overwrites a value and its write barrier remembers
a stale identifier, or the slot vector outgrows the slot numbers. -/
theorem wp_storeMapEntry (hw : h.Wf)
    (hstale : ∀ entry, h.findMapEntry id key = .ok (some entry) → ¬h.RemembersStale id value) :
    wp (storeMapEntry id key value) (fun _ h' => h'.Wf ∨ h'.Oversized)
      (fun e h' => Throws e h' ∨ h'.Oversized) h := by
  refine wp_storeMapEntry_of (fun _ => .inl (.inl hw)) ?_ ?_
  · intro entry slot o m hfound hr hp hkey hvalue hfits
    exact wp_mono (wp_publishMapEntry hw hr hp hkey hvalue (hstale entry hfound) hfits
      (afterStore_wf _ _ _)) (fun _ _ hw' => .inl hw') fun _ _ he => .inl he
  · intro slot o m _ hr hp hcells
    have hfinish : wp (finishActiveCompaction [.object id, key, value]) (fun _ _ => True)
        (fun _ _ => False) h :=
      wp_mono (wp_finishActiveCompaction hw hcells) (fun _ _ _ => trivial) fun _ _ he => he
    rw [wp_bind]
    refine wp_mono (wp_prepareMapInsertion hw hcells hfinish) (fun cells' h' hpost => ?_)
      fun _ _ he => .inl (.inl he.1)
    obtain ⟨h₁, id₁, rest, slot₁, o₁, m₁, -, hw₁, hc₁, hlength, hrest, hr₁, hp₁, hgrew⟩ := hpost
    rcases hgrew.roomy hw₁ hc₁ hr₁ hrest with hroomy | hoversized
    · obtain ⟨id', key', value', slot', o', m', rfl, hr', hp', hkey', hvalue', hfits⟩ :=
        hroomy.readyToInsert hlength hp₁
      have hoperand : asObject ([.object id', key', value'].getD 0 .nil) = .ok id' := rfl
      refine wp_query_ok hoperand ?_
      exact wp_mono (wp_publishMapEntry hroomy.wf hr' hp' hkey' hvalue'
        (not_remembersStale hfits.1) hfits (afterStore_wf _ _ _)) (fun _ _ hw' => .inl hw')
        fun _ _ he => .inl he
    · have hpublish := publishInserted_preserves .oversized finishActiveCompaction_oversized cells'
      exact wp_mono (hpublish h' hoversized) (fun _ _ ho => .inr ho) fun _ _ ho => .inr ho

end MapStores

end Heap

end LanguageRuntime.Gc
