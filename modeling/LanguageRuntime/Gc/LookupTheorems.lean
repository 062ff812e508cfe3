import LanguageRuntime.Gc.BirthTheorems
import LanguageRuntime.Gc.MapTheorems

/-!
# Map lookup

The probe of the lookup index finds the first entry with the key, or there is none: the lookup of
the heap is the search of the store through the list of entries.
-/

namespace LanguageRuntime.Gc

open LanguageRuntime LanguageRuntime.Library

namespace Heap

/-! ## The probe -/

section Probe

variable {h : Heap} {m : MapPayload} {key : Value} {remaining bucket entry : ℕ}
  {homes : List ℕ} {hash : UInt64}

/-- The entry that a probe ends at has the key. -/
theorem probeMapEntry_some (hok : h.probeMapEntry m key remaining bucket = .ok (some entry)) :
    ∃ stored, m.entries[entry]? = some stored ∧ h.mapKeysEqual m stored.key key = .ok true := by
  induction remaining generalizing bucket with
  | zero => cases hok
  | succ remaining ih =>
    unfold probeMapEntry at hok
    split at hok
    · cases hok
    · split at hok
      · cases hok
      · next stored hstored =>
        obtain ⟨equal, hequal, hok⟩ := bind_eq_ok.mp hok
        split at hok
        · next htrue =>
          cases hok
          exact ⟨stored, hstored, htrue ▸ hequal⟩
        · exact ih hok

theorem next_bucket (bucket n x : ℕ) : ((bucket + 1) % n + x) % n = (bucket + (x + 1)) % n := by
  rw [Nat.mod_add_mod, Nat.add_assoc, Nat.add_comm 1 x]

/-- A probe without a result has come to an empty bucket, past entries with other keys. -/
theorem probeMapEntry_none (hc : IsCapacity m.lookupIndex.length)
    (hbucket : bucket < m.lookupIndex.length)
    (hok : h.probeMapEntry m key remaining bucket = .ok none) :
    ∃ d, m.lookupIndex.getD ((bucket + d) % m.lookupIndex.length) 0 = 0 ∧
      ∀ d' < d, ∀ i, m.lookupIndex.getD ((bucket + d') % m.lookupIndex.length) 0 = i + 1 →
        ∃ stored, m.entries[i]? = some stored ∧ h.mapKeysEqual m stored.key key = .ok false := by
  induction remaining generalizing bucket with
  | zero => cases hok
  | succ remaining ih =>
    unfold probeMapEntry at hok
    split at hok
    · next hempty => exact ⟨0, by rwa [Nat.add_zero, Nat.mod_eq_of_lt hbucket], nofun⟩
    · next i hi =>
      split at hok
      · cases hok
      · next stored hstored =>
        obtain ⟨equal, hequal, hok⟩ := bind_eq_ok.mp hok
        split at hok
        · cases hok
        · next hfalse =>
          have hnext : (bucket + 1) % m.lookupIndex.length < m.lookupIndex.length :=
            Nat.mod_lt _ (by omega)
          rw [hc.mask] at hok
          obtain ⟨d, hempty, hpassed⟩ := ih hnext hok
          refine ⟨d + 1, by rwa [← next_bucket], fun d' hd' j hj => ?_⟩
          cases d' with
          | zero =>
            rw [Nat.add_zero, Nat.mod_eq_of_lt hbucket, hi] at hj
            cases hj
            have hequal : h.mapKeysEqual m stored.key key = .ok false := by
              cases equal with
              | true => exact absurd rfl hfalse
              | false => exact hequal
            exact ⟨stored, hstored, hequal⟩
          | succ d' =>
            rw [← next_bucket] at hj
            exact hpassed d' (by omega) j hj

/-- Equal keys have equal hashes. -/
theorem mapKeyHash_eq {stored : Value} (hequal : h.mapKeysEqual m stored key = .ok true) :
    h.mapKeyHash stored = h.mapKeyHash key := by
  unfold mapKeysEqual at hequal
  split at hequal
  · split at hequal
    · next left right =>
      obtain ⟨bytes, hbytes, hequal⟩ := bind_eq_ok.mp hequal
      obtain ⟨bytes', hbytes', hequal⟩ := bind_eq_ok.mp hequal
      have hsame : (bytes == bytes') = true := Except.ok.inj hequal
      rw [mapKeyHash, mapKeyHash, hbytes, hbytes', beq_iff_eq.mp hsame]
    · cases hequal
  · split at hequal
    · next a b =>
      have hsame : (a == b) = true := Except.ok.inj hequal
      rw [beq_iff_eq.mp hsame]
    · next a b =>
      have hsame : (a == b) = true := Except.ok.inj hequal
      rw [beq_iff_eq.mp hsame]
    · cases hequal

/-- A probe that has an empty bucket ahead ends. -/
theorem exists_probeMapEntry {d : ℕ} (hc : IsCapacity m.lookupIndex.length)
    (hbucket : bucket < m.lookupIndex.length) (hd : d < remaining)
    (hempty : m.lookupIndex.getD ((bucket + d) % m.lookupIndex.length) 0 = 0)
    (hsmall : ∀ bucket, m.lookupIndex.getD bucket 0 ≤ m.entries.length)
    (hkeys : ∀ e ∈ m.entries, ∃ equal, h.mapKeysEqual m e.key key = .ok equal) :
    ∃ found, h.probeMapEntry m key remaining bucket = .ok found := by
  induction remaining generalizing bucket d with
  | zero => cases hd
  | succ remaining ih =>
    unfold probeMapEntry
    split
    · exact ⟨none, rfl⟩
    · next i hi =>
      have hle := hsmall bucket
      have hlt : i < m.entries.length := by omega
      simp only [List.getElem?_eq_getElem hlt]
      obtain ⟨equal, hequal⟩ := hkeys _ (List.getElem_mem hlt)
      rw [hequal, ok_bind]
      cases equal with
      | true => exact ⟨some i, rfl⟩
      | false =>
        rw [if_neg Bool.false_ne_true, hc.mask]
        cases d with
        | zero =>
          rw [Nat.add_zero, Nat.mod_eq_of_lt hbucket, hi] at hempty
          cases hempty
        | succ d =>
          rw [← next_bucket] at hempty
          exact ih (Nat.mod_lt _ (by omega)) (by omega) hempty

/-- The lookup index of a map that has one. -/
theorem IndexedMap.indexes (hm : h.IndexedMap m) (hc : IsCapacity m.lookupIndex.length)
    (hhalf : m.entries.length ≤ m.lookupIndex.length / 2) :
    ∃ hashes, List.Forall₂ (fun (e : MapEntry) hash => h.mapKeyHash e.key = .ok hash) m.entries hashes ∧
      Indexes m.lookupIndex (hashes.map fun hash : UInt64 => hash.toNat % m.lookupIndex.length) := by
  have hpos := hc.pos
  have hreplicate : (List.replicate m.lookupIndex.length 0).length = m.lookupIndex.length :=
    List.length_replicate
  obtain ⟨-, hashes, hhashes, hindexes⟩ := insertMapEntries_indexes
    (by rwa [hreplicate]) (by rw [hreplicate, List.length_nil]; omega) (indexes_replicate _) hm.index
  rw [List.nil_append, hreplicate] at hindexes
  have hall := yields_mapM (R := fun e hash => h.mapKeyHash e.key = .ok hash) (E := fun _ => True)
    (f := fun entry : MapEntry => h.mapKeyHash entry.key) (l := m.entries)
    fun entry _ => yields_iff.mpr ⟨fun _ hok => hok, fun _ _ => trivial⟩
  exact ⟨hashes, hall.of_ok hhashes, hindexes⟩

/-- A lookup without a result has no entry with the key. -/
theorem IndexedMap.lookup_none (hm : h.IndexedMap m) (hhash : h.mapKeyHash key = .ok hash)
    (hok : h.probeMapEntry m key m.lookupIndex.length (hash.toNat &&& (m.lookupIndex.length - 1)) =
      .ok none) {stored : MapEntry} (hstored : stored ∈ m.entries) :
    h.mapKeysEqual m stored.key key ≠ .ok true := by
  intro hequal
  rcases mapLookupIndexCapacity_eq_ok hm.capacity with ⟨hentries, -⟩ | ⟨hc, hhalf⟩
  · rw [List.length_eq_zero_iff.mp hentries] at hstored
    cases hstored
  · have hpos := hc.pos
    obtain ⟨hashes, hpairs, hindexes⟩ := hm.indexes hc (by omega)
    -- the home of the entry is the home of the key
    obtain ⟨i, hi, rfl⟩ := List.getElem_of_mem hstored
    have hlength := hpairs.length_eq
    have hhome : hashes[i]? = some hash := by
      have hentry := List.forall₂_iff_get.mp hpairs
      have hsame := hentry.2 i hi (hlength ▸ hi)
      rw [List.get_eq_getElem, mapKeyHash_eq hequal, hhash] at hsame
      rw [List.getElem?_eq_getElem (hlength ▸ hi)]
      exact congrArg some (Except.ok.inj hsame).symm
    obtain ⟨target, htarget, hprobes⟩ := hindexes.entry i (hash.toNat % m.lookupIndex.length)
      (by rw [List.getElem?_map, hhome]; rfl)
    rw [hc.mask] at hok
    obtain ⟨d, hempty, hpassed⟩ := probeMapEntry_none hc (Nat.mod_lt _ (by omega)) hok
    obtain ⟨d', hd', hreach⟩ := hprobes.passed (by omega) hempty
    obtain ⟨stored, hget, hdifferent⟩ := hpassed d' hd' i (by rw [hreach, htarget])
    rw [List.getElem?_eq_getElem hi] at hget
    cases hget
    rw [hequal] at hdifferent
    cases hdifferent

/-- A lookup ends if every key compares with the one looked up. -/
theorem IndexedMap.exists_lookup (hm : h.IndexedMap m) (hnonempty : ¬m.lookupIndex.isEmpty = true)
    (hkeys : ∀ e ∈ m.entries, ∃ equal, h.mapKeysEqual m e.key key = .ok equal) (home : ℕ) :
    ∃ found, h.probeMapEntry m key m.lookupIndex.length (home &&& (m.lookupIndex.length - 1)) =
      .ok found := by
  rcases mapLookupIndexCapacity_eq_ok hm.capacity with ⟨-, hzero⟩ | ⟨hc, hhalf⟩
  · exact absurd (by simpa using List.length_eq_zero_iff.mp hzero) hnonempty
  · have hpos := hc.pos
    obtain ⟨hashes, hpairs, hindexes⟩ := hm.indexes hc (by omega)
    have hlength : (hashes.map fun hash : UInt64 => hash.toNat % m.lookupIndex.length).length =
        m.entries.length := by rw [List.length_map, hpairs.length_eq]
    obtain ⟨bucket, hbucket, hzero⟩ := hindexes.exists_empty (by omega)
    obtain ⟨target, htarget, -, d, hd, hreach, -⟩ :=
      exists_first_empty (home % m.lookupIndex.length) hbucket hzero
    rw [hc.mask]
    refine exists_probeMapEntry hc (Nat.mod_lt _ (by omega)) hd (by rw [hreach, htarget]) ?_ hkeys
    exact fun bucket => hlength ▸ hindexes.small bucket

end Probe

/-! ## The search of the store -/

section Search

variable {h : Heap} {m : MapPayload} {id : ObjectId} {slot entry : ℕ} {o : Object}
  {key stored : Value} {existing : Option ℕ} {equal : Bool}

/-- A map of the store, under the names of the store. -/
def numberMap (h : Heap) (m : MapPayload) : MapPayload :=
  { m with
    entries := m.entries.map fun e => ⟨h.numberValue e.key, h.numberValue e.value⟩
    lookupIndex := [] }

theorem numberPayload_map (hshape : (Payload.map m).DescriptorShape)
    (hvalid : ∀ value ∈ (Payload.map m).allFields, h.Valid value) :
    h.numberPayload (.map m) = .map (h.numberMap m) :=
  numberPayload_eq_rename hshape hvalid

/-- Keys compare in the store as they do in the heap. -/
theorem sameKey_numberValue (hn : h.Numbered)
    (hstored : m.keyIsRef = false → stored.isScalar = true)
    (hkey : m.keyIsRef = false → key.isScalar = true)
    (hequal : h.mapKeysEqual m stored key = .ok equal) :
    h.store.sameKey m.keyIsRef (h.numberValue stored) (h.numberValue key) = equal := by
  unfold mapKeysEqual at hequal
  split at hequal
  · next href =>
    split at hequal
    · next left right =>
      obtain ⟨bytes, hbytes, hequal⟩ := bind_eq_ok.mp hequal
      obtain ⟨bytes', hbytes', hequal⟩ := bind_eq_ok.mp hequal
      have hsame : (bytes == bytes') = equal := Except.ok.inj hequal
      rw [Store.sameKey, if_pos href, bytes_of_checkedString hn hbytes,
        bytes_of_checkedString hn hbytes', ← hsame]
      rfl
    · cases hequal
  · next hscalar =>
    have hscalar : m.keyIsRef = false := by simpa using hscalar
    rw [Store.sameKey, hscalar, if_neg Bool.false_ne_true,
      numberValue_scalar (isObject_of_isScalar (hstored hscalar)),
      numberValue_scalar (isObject_of_isScalar (hkey hscalar))]
    split at hequal
    · next a b =>
      have hsame : (a == b) = equal := Except.ok.inj hequal
      rw [← hsame, Bool.eq_iff_iff, beq_iff_eq, beq_iff_eq, Value.int64.injEq]
    · next a b =>
      have hsame : (a == b) = equal := Except.ok.inj hequal
      rw [← hsame, Bool.eq_iff_iff, beq_iff_eq, beq_iff_eq, Value.bool.injEq]
    · next hint hbool =>
      have hsame : false = equal := Except.ok.inj hequal
      rw [← hsame, beq_eq_false_iff_ne]
      rintro rfl
      have hscalar := hkey hscalar
      cases stored with
      | int64 a => exact hint a a rfl rfl
      | bool a => exact hbool a a rfl rfl
      | _ => cases hscalar

/-- The keys that an index has been built from have hashes. -/
theorem insertMapEntries_hashes {entries : List MapEntry} {position : ℕ} {index result : List ℕ}
    (hr : h.insertMapEntries entries position index = .ok result) {e : MapEntry} (he : e ∈ entries) :
    ∃ hash, h.mapKeyHash e.key = .ok hash := by
  induction entries generalizing position index with
  | nil => cases he
  | cons head entries ih =>
    unfold insertMapEntries at hr
    obtain ⟨hash, hhash, hr⟩ := bind_eq_ok.mp hr
    obtain ⟨bucket, -, hr⟩ := bind_eq_ok.mp hr
    obtain ⟨encoded, -, hr⟩ := bind_eq_ok.mp hr
    rcases List.mem_cons.mp he with rfl | hmem
    · exact ⟨hash, hhash⟩
    · exact ih hr hmem

/-- The keys of a map of strings are strings. -/
theorem Wf.stringKey (hw : h.Wf) (ho : h.objectAt slot = some o) (hp : o.payload = .map m)
    (href : m.keyIsRef = true) {e : MapEntry} (he : e ∈ m.entries) :
    ∃ id bytes, e.key = .object id ∧ h.checkedString id = .ok bytes := by
  obtain ⟨hash, hhash⟩ := insertMapEntries_hashes (hw.maps slot o m ho hp).index he
  have hobject := (mapEntry_key (hp ▸ o.shape) he).1 href
  cases hkey : e.key with
  | object id =>
    rw [hkey] at hhash
    obtain ⟨bytes, hbytes, -⟩ := map_eq_ok.mp hhash
    exact ⟨id, bytes, rfl, hbytes⟩
  | _ =>
    rw [hkey] at hobject
    exact nomatch hobject

/-- A key that has been validated compares with every key of the map. -/
theorem Wf.mapKeysEqual_isOk (hw : h.Wf) (ho : h.objectAt slot = some o) (hp : o.payload = .map m)
    (hkey : h.validateMapKey m key = .ok ()) {e : MapEntry} (he : e ∈ m.entries) :
    ∃ equal, h.mapKeysEqual m e.key key = .ok equal := by
  unfold mapKeysEqual
  split
  · next href =>
    unfold validateMapKey at hkey
    rw [if_pos href] at hkey
    split at hkey
    · next query =>
      obtain ⟨bytes', hbytes', -⟩ := bind_eq_ok.mp hkey
      obtain ⟨id, bytes, hstored, hbytes⟩ := hw.stringKey ho hp href he
      rw [hstored]
      refine ⟨bytes == bytes', ?_⟩
      show h.stringEqual id query = _
      rw [stringEqual, hbytes, hbytes']
      rfl
    · cases hkey
  · split
    · exact ⟨_, rfl⟩
    · exact ⟨_, rfl⟩
    · exact ⟨_, rfl⟩

/-- The store has the payload of an object under its own names. -/
theorem Stands.objects (hs : h.Stands) (hr : h.resolve id = .ok (slot, o)) :
    h.store.objects (h.numberId id).slot = some (o.payload.rename h.numberId).visible := by
  have ho := objectAt_of_resolve hr
  rw [numberId_of_resolve hr, numbered_slot, store_objects_of_objectAt hs.numbered ho,
    numberPayload_eq_rename o.shape (hs.fields slot o ho)]

/-- A value has bytes in the store if it is a string of the heap. -/
theorem Stands.bytes (hs : h.Stands) (hv : h.Valid (.object id)) :
    h.store.bytes (.object (h.numberId id)) = (h.checkedString id).toOption := by
  obtain ⟨slot, o, hr⟩ := valid_object.mp hv
  unfold Store.bytes checkedString
  rw [hr, ok_bind]
  simp only [hs.objects hr]
  cases o.payload <;> rfl

/-- The store takes the keys that the heap takes. -/
theorem Stands.accepts (hs : h.Stands) (hkey : h.Valid key) :
    h.store.accepts (h.numberMap m) (h.numberValue key) =
      (h.validateMapKey m key).toOption.isSome := by
  unfold Store.accepts validateMapKey
  show (if m.keyIsRef then _ else _) = _
  split
  · cases key with
    | object id =>
      show (h.store.bytes (.object (h.numberId id))).isSome = _
      rw [hs.bytes hkey]
      dsimp only
      cases h.checkedString id <;> rfl
    | _ => rfl
  · cases key <;> rfl

/-- A key that has been validated has a hash. -/
theorem exists_mapKeyHash (hkey : h.validateMapKey m key = .ok ()) :
    ∃ hash, h.mapKeyHash key = .ok hash := by
  unfold validateMapKey at hkey
  split at hkey
  · split at hkey
    · next id =>
      obtain ⟨bytes, hbytes, -⟩ := bind_eq_ok.mp hkey
      refine ⟨stringContentHash bytes, ?_⟩
      show stringContentHash <$> h.checkedString id = _
      rw [hbytes]
      rfl
    · cases hkey
  · split at hkey
    · next hscalar =>
      cases key with
      | int64 v => exact ⟨_, rfl⟩
      | bool b => exact ⟨_, rfl⟩
      | _ => exact nomatch hscalar
    · cases hkey

/-- A key that has been looked up is one the map takes. -/
theorem Stands.accepts_of_findMapEntry (hs : h.Stands) (hr : h.resolve id = .ok (slot, o))
    (hp : o.payload = .map m) (hkey : h.Valid key) (hok : h.findMapEntry id key = .ok existing) :
    h.store.accepts (h.numberMap m) (h.numberValue key) = true := by
  unfold Heap.findMapEntry at hok
  rw [checkedMap_of_resolve hr hp, ok_bind] at hok
  obtain ⟨_, hvalidated, -⟩ := bind_eq_ok.mp hok
  rw [hs.accepts hkey, hvalidated]
  rfl

/-- What the lookup of the heap finds is what the store finds. -/
theorem Stands.findEntry (hs : h.Stands) (hr : h.resolve id = .ok (slot, o)) (hp : o.payload = .map m)
    (hok : h.findMapEntry id key = .ok existing) :
    h.store.findEntry (h.numberMap m) (h.numberValue key) = existing := by
  have ho := objectAt_of_resolve hr
  have hw := hs.toWf
  have hm := hw.maps slot o m ho hp
  unfold findMapEntry at hok
  rw [checkedMap_of_resolve hr hp, ok_bind] at hok
  obtain ⟨_, hkey, hok⟩ := bind_eq_ok.mp hok
  have hscalar : m.keyIsRef = false → key.isScalar = true := by
    intro href
    unfold validateMapKey at hkey
    rw [href, if_neg Bool.false_ne_true] at hkey
    split at hkey
    · assumption
    · cases hkey
  -- the comparisons of the heap are those of the store
  have hsame : ∀ e ∈ m.entries, ∀ equal, h.mapKeysEqual m e.key key = .ok equal →
      h.store.sameKey m.keyIsRef (h.numberValue e.key) (h.numberValue key) = equal :=
    fun e he equal => sameKey_numberValue hs.numbered (mapEntry_key (hp ▸ o.shape) he).2 hscalar
  have hsearch : h.store.findEntry (h.numberMap m) (h.numberValue key) =
      m.entries.findIdx? fun e =>
        h.store.sameKey m.keyIsRef (h.numberValue e.key) (h.numberValue key) := by
    show (m.entries.map _).findIdx? _ = _
    rw [List.findIdx?_map]
    rfl
  rw [hsearch]
  cases existing with
  | none =>
    have hnone : ∀ e ∈ m.entries, h.mapKeysEqual m e.key key ≠ .ok true := by
      intro e he
      split at hok
      · next hempty =>
        have hlength : m.lookupIndex.length = 0 := by simpa using hempty
        rcases mapLookupIndexCapacity_eq_ok hm.capacity with ⟨hentries, -⟩ | ⟨hc, -⟩
        · rw [List.length_eq_zero_iff.mp hentries] at he
          cases he
        · have hpos := hc.pos
          omega
      · obtain ⟨hash, hhash, hok⟩ := bind_eq_ok.mp hok
        exact hm.lookup_none hhash hok he
    refine List.findIdx?_eq_none_iff.mpr fun e he => ?_
    obtain ⟨equal, hequal⟩ := hw.mapKeysEqual_isOk ho hp hkey he
    rw [hsame e he equal hequal]
    cases equal with
    | true => exact absurd hequal (hnone e he)
    | false => rfl
  | some entry =>
    split at hok
    · cases hok
    · obtain ⟨hash, -, hok⟩ := bind_eq_ok.mp hok
      obtain ⟨found, hfound, hequal⟩ := probeMapEntry_some hok
      obtain ⟨hlt, hget⟩ := List.getElem?_eq_some_iff.mp hfound
      have hkeys := hsame found (List.mem_of_getElem? hfound) true hequal
      refine List.findIdx?_eq_some_iff_getElem.mpr ⟨hlt, hget ▸ hkeys, fun j hj hjkey => ?_⟩
      -- an earlier entry with the key would have the key of the entry found
      have hstored := store_objects_of_objectAt hs.numbered ho
      rw [hp, numberPayload_map (hp ▸ o.shape) (hp ▸ hw.fields slot o ho)] at hstored
      have hdistinct := hs.sound.distinct _ _ hstored
      have hdifferent := List.pairwise_iff_getElem.mp hdistinct j entry
        (by simp [numberMap]; omega) (by simp [numberMap, hlt]) hj
      simp only [numberMap, List.getElem_map, hget] at hdifferent
      have hagain := Store.sameKey_trans hjkey (Store.sameKey_symm hkeys)
      rw [hdifferent] at hagain
      cases hagain

end Search

end Heap

end LanguageRuntime.Gc
