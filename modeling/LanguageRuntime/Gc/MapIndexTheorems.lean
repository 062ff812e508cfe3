import LanguageRuntime.Gc.StateTheorems
import LanguageRuntime.Library.LinearProbing

/-!
# Lemmas about the lookup index of a map

The index built from the ordered entries finds every entry and passes the validator.
-/

namespace LanguageRuntime.Gc

open LanguageRuntime LanguageRuntime.Library

/-! ## Capacities -/

/-- A capacity: a power of two, so that a mask is a remainder. -/
def IsCapacity (n : ℕ) : Prop := ∃ k, 3 ≤ k ∧ n = 2 ^ k

namespace IsCapacity

variable {n : ℕ}

theorem pos (h : IsCapacity n) : 8 ≤ n := by
  obtain ⟨k, hk, rfl⟩ := h
  calc 8 = 2 ^ 3 := rfl
    _ ≤ 2 ^ k := Nat.pow_le_pow_right (by omega) hk

theorem mask (h : IsCapacity n) (x : ℕ) : x &&& (n - 1) = x % n := by
  obtain ⟨k, -, rfl⟩ := h
  exact Nat.and_two_pow_sub_one_eq_mod x k

theorem isPowerOfTwo (h : IsCapacity n) : isPowerOfTwo n = true := by
  rw [Gc.isPowerOfTwo, h.mask, Nat.mod_self]
  rfl

end IsCapacity

theorem doubleIndexCapacity_eq_ok {entryCount fuel k capacity : ℕ} (hk : 3 ≤ k) (hk' : k ≤ 63)
    (hfuel : 64 ≤ fuel + k)
    (h : doubleIndexCapacity entryCount fuel (2 ^ k) = .ok capacity) :
    IsCapacity capacity ∧ entryCount ≤ capacity / 2 := by
  induction fuel generalizing k with
  | zero => omega
  | succ fuel ih =>
    unfold doubleIndexCapacity at h
    split at h
    · split at h
      · exact nomatch h
      · next hlimit =>
        rw [← Nat.pow_succ] at h
        have hlt : k < 63 := by
          by_contra hge
          obtain rfl : k = 63 := by omega
          exact hlimit (by decide)
        exact ih (by omega) (by omega) (by omega) h
    · next hcapacity =>
      cases h
      exact ⟨⟨k, hk, rfl⟩, Nat.not_lt.mp hcapacity⟩

/-- What `mapLookupIndexCapacity` chooses. -/
theorem mapLookupIndexCapacity_eq_ok {entryCount capacity : ℕ}
    (h : mapLookupIndexCapacity entryCount = .ok capacity) :
    entryCount = 0 ∧ capacity = 0 ∨ IsCapacity capacity ∧ entryCount ≤ capacity / 2 := by
  unfold mapLookupIndexCapacity at h
  split at h
  · next h0 =>
    cases h
    exact .inl ⟨h0, rfl⟩
  · exact .inr (doubleIndexCapacity_eq_ok (k := 3) le_rfl (by omega) (by omega) h)

theorem doubleIndexCapacity_ne_error {entryCount fuel k : ℕ} (hcount : entryCount ≤ 2 ^ 33)
    (hk : k ≤ 34) : ∃ capacity, doubleIndexCapacity entryCount fuel (2 ^ k) = .ok capacity := by
  induction fuel generalizing k with
  | zero => exact ⟨_, rfl⟩
  | succ fuel ih =>
    unfold doubleIndexCapacity
    split
    · next hcapacity =>
      have hlt : k < 34 := by
        by_contra hge
        obtain rfl : k = 34 := by omega
        omega
      have hpow : 2 ^ k ≤ 2 ^ 33 := Nat.pow_le_pow_right (by omega) (by omega)
      have hlimit : ¬sizeLimit / 2 < 2 ^ k := by
        simp only [sizeLimit]
        omega
      rw [if_neg hlimit, ← Nat.pow_succ]
      exact ih hlt
    · exact ⟨_, rfl⟩

/-- Every entry count a header can hold has a capacity. -/
theorem exists_mapLookupIndexCapacity {entryCount : ℕ} (hcount : entryCount ≤ 2 ^ 33) :
    ∃ capacity, mapLookupIndexCapacity entryCount = .ok capacity := by
  unfold mapLookupIndexCapacity
  split
  · exact ⟨0, rfl⟩
  · exact doubleIndexCapacity_ne_error (k := 3) hcount (by omega)

/-! ## The probes -/

section Probe

variable {index : List ℕ}

theorem probeOpenBucket_of_probes {remaining bucket target d : ℕ} (hc : IsCapacity index.length)
    (hd : d < remaining) (htarget : (bucket + d) % index.length = target)
    (hempty : index.getD target 0 = 0)
    (hbetween : ∀ d' < d, index.getD ((bucket + d') % index.length) 0 ≠ 0)
    (hbucket : bucket < index.length) :
    probeOpenBucket index remaining bucket = .ok target := by
  induction d generalizing remaining bucket with
  | zero =>
    obtain ⟨remaining, rfl⟩ : ∃ r, remaining = r + 1 := ⟨remaining - 1, by omega⟩
    rw [Nat.add_zero, Nat.mod_eq_of_lt hbucket] at htarget
    rw [probeOpenBucket, if_pos (htarget ▸ hempty), htarget]
  | succ d ih =>
    obtain ⟨remaining, rfl⟩ : ∃ r, remaining = r + 1 := ⟨remaining - 1, by omega⟩
    have hne := hbetween 0 (Nat.succ_pos d)
    rw [Nat.add_zero, Nat.mod_eq_of_lt hbucket] at hne
    have hshift : ∀ x, ((bucket + 1) % index.length + x) % index.length =
        (bucket + (x + 1)) % index.length := by
      intro x
      rw [Nat.mod_add_mod]
      congr 1
      omega
    rw [probeOpenBucket, if_neg hne, hc.mask]
    refine ih (by omega) ?_ (fun d' hd' => ?_) (Nat.mod_lt _ (by omega))
    · rw [hshift]
      exact htarget
    · rw [hshift]
      exact hbetween (d' + 1) (by omega)

theorem findOpenMapBucket_of_probes {target : ℕ} {hash : UInt64} (hc : IsCapacity index.length)
    (hempty : index.getD target 0 = 0)
    (hprobes : Probes index (hash.toNat % index.length) target) :
    findOpenMapBucket index hash = .ok target := by
  have hpos := hc.pos
  obtain ⟨d, hd, htarget, hbetween⟩ := hprobes
  have hnonempty : (index.isEmpty || !isPowerOfTwo index.length) = false := by
    rw [hc.isPowerOfTwo, Bool.not_true, Bool.or_false, List.isEmpty_eq_false_iff]
    rintro rfl
    simp at hpos
  unfold findOpenMapBucket
  rw [hnonempty, if_neg Bool.false_ne_true, hc.mask]
  exact probeOpenBucket_of_probes hc hd htarget hempty hbetween (Nat.mod_lt _ (by omega))

theorem probeReaches_of_probes {remaining bucket target d : ℕ} (hc : IsCapacity index.length)
    (hd : d < remaining) (htarget : (bucket + d) % index.length = target)
    (hbetween : ∀ d' < d, index.getD ((bucket + d') % index.length) 0 ≠ 0)
    (hbucket : bucket < index.length) :
    Heap.probeReaches index target remaining bucket = true := by
  induction d generalizing remaining bucket with
  | zero =>
    obtain ⟨remaining, rfl⟩ : ∃ r, remaining = r + 1 := ⟨remaining - 1, by omega⟩
    rw [Nat.add_zero, Nat.mod_eq_of_lt hbucket] at htarget
    rw [Heap.probeReaches, if_pos htarget]
  | succ d ih =>
    obtain ⟨remaining, rfl⟩ : ∃ r, remaining = r + 1 := ⟨remaining - 1, by omega⟩
    have hne := hbetween 0 (Nat.succ_pos d)
    rw [Nat.add_zero, Nat.mod_eq_of_lt hbucket] at hne
    have hshift : ∀ x, ((bucket + 1) % index.length + x) % index.length =
        (bucket + (x + 1)) % index.length := by
      intro x
      rw [Nat.mod_add_mod]
      congr 1
      omega
    rw [Heap.probeReaches, if_neg hne, hc.mask]
    split
    · rfl
    · refine ih (by omega) ?_ (fun d' hd' => ?_) (Nat.mod_lt _ (by omega))
      · rw [hshift]
        exact htarget
      · rw [hshift]
        exact hbetween (d' + 1) (by omega)

end Probe

/-! ## Hashing -/

/-- Keys that are moved along with their bytes keep their hash. -/
theorem mapKeyHash_mapObject {h h' : Heap} {f : ObjectId → ObjectId} {key : Value} {hash : UInt64}
    (hstrings : ∀ id bytes, key = .object id → h.checkedString id = .ok bytes →
      h'.checkedString (f id) = .ok bytes)
    (hhash : h.mapKeyHash key = .ok hash) : h'.mapKeyHash (key.mapObject f) = .ok hash := by
  cases key with
  | object id =>
    obtain ⟨bytes, hbytes, rfl⟩ := map_eq_ok.mp hhash
    show stringContentHash <$> h'.checkedString (f id) = _
    rw [hstrings id bytes rfl hbytes]
    rfl
  | _ => exact hhash

/-- The index depends on the entries through the hashes of their keys alone. -/
theorem insertMapEntries_congr {h h' : Heap} {entries entries' : List MapEntry}
    (hkeys : List.Forall₂ (fun e e' => ∀ hash, h.mapKeyHash e.key = .ok hash →
      h'.mapKeyHash e'.key = .ok hash) entries entries')
    {position : ℕ} {index result : List ℕ}
    (hr : h.insertMapEntries entries position index = .ok result) :
    h'.insertMapEntries entries' position index = .ok result := by
  induction hkeys generalizing position index with
  | nil => exact hr
  | cons hkey _ ih =>
    unfold Heap.insertMapEntries at hr ⊢
    obtain ⟨hash, hhash, hr⟩ := bind_eq_ok.mp hr
    rw [hkey hash hhash]
    obtain ⟨bucket, hbucket, hr⟩ := bind_eq_ok.mp hr
    obtain ⟨encoded, hencoded, hr⟩ := bind_eq_ok.mp hr
    refine bind_eq_ok.mpr ⟨hash, rfl, bind_eq_ok.mpr ⟨bucket, hbucket, ?_⟩⟩
    exact bind_eq_ok.mpr ⟨encoded, hencoded, ih hr⟩

/-! ## The validator -/

theorem encodedMapEntryIndex_eq_ok {position encoded : ℕ}
    (h : encodedMapEntryIndex position = .ok encoded) : encoded = position + 1 := by
  unfold encodedMapEntryIndex at h
  split at h
  · exact nomatch h
  · cases h
    rfl

/-- Building the index of some entries gives an index of them all. -/
theorem insertMapEntries_indexes {h : Heap} {entries : List MapEntry} {index result homes : List ℕ}
    (hc : IsCapacity index.length) (hroom : homes.length + entries.length < index.length)
    (hindex : Indexes index homes)
    (hr : h.insertMapEntries entries homes.length index = .ok result) :
    result.length = index.length ∧ ∃ hashes,
      entries.mapM (fun entry => h.mapKeyHash entry.key) = .ok hashes ∧
        Indexes result (homes ++ hashes.map fun hash => hash.toNat % index.length) := by
  induction entries generalizing index homes with
  | nil =>
    cases hr
    exact ⟨rfl, [], rfl, by simpa using hindex⟩
  | cons entry entries ih =>
    rw [List.length_cons] at hroom
    unfold Heap.insertMapEntries at hr
    obtain ⟨hash, hhash, hr⟩ := bind_eq_ok.mp hr
    obtain ⟨bucket, hbucket, hr⟩ := bind_eq_ok.mp hr
    obtain ⟨encoded, hencoded, hr⟩ := bind_eq_ok.mp hr
    obtain rfl := encodedMapEntryIndex_eq_ok hencoded
    -- the bucket found is the first empty one of the probe
    obtain ⟨empty, hempty, hzero⟩ := hindex.exists_empty (by omega)
    obtain ⟨target, htarget, hlt, hprobes⟩ :=
      exists_first_empty (hash.toNat % index.length) hempty hzero
    rw [findOpenMapBucket_of_probes hc htarget hprobes] at hbucket
    cases hbucket
    have hlength : (index.set bucket (homes.length + 1)).length = index.length := List.length_set
    have hinsert := hindex.insert htarget hlt hprobes
    have hcount : (homes ++ [hash.toNat % index.length]).length = homes.length + 1 := by simp
    obtain ⟨hresult, hashes, hhashes, hindexes⟩ := ih (by rwa [hlength]) (by rw [hlength, hcount]; omega)
      hinsert (by rwa [hcount])
    refine ⟨hresult.trans hlength, hash :: hashes, ?_, ?_⟩
    · rw [List.mapM_cons, hhash, ok_bind, hhashes]
      rfl
    · rw [hlength, List.append_assoc] at hindexes
      exact hindexes

/-- The first pass of the validator finds the bucket of every entry. -/
theorem collectEntryBuckets_eq_ok {index homes : List ℕ} (hindex : Indexes index homes) :
    ∃ entryBuckets, Heap.collectEntryBuckets homes.length index 0
        (List.replicate homes.length none) = .ok entryBuckets ∧
      entryBuckets.length = homes.length ∧
      ∀ i bucket, entryBuckets.getD i none = some bucket ↔ index.getD bucket 0 = i + 1 := by
  -- the invariant: the buckets before the current one have been entered
  have hloop : ∀ (rest before : List ℕ) (entryBuckets : List (Option ℕ)), before ++ rest = index →
      entryBuckets.length = homes.length →
      (∀ i bucket, entryBuckets.getD i none = some bucket ↔
        bucket < before.length ∧ index.getD bucket 0 = i + 1) →
      ∃ result, Heap.collectEntryBuckets homes.length rest before.length entryBuckets = .ok result ∧
        result.length = homes.length ∧
        ∀ i bucket, result.getD i none = some bucket ↔ index.getD bucket 0 = i + 1 := by
    intro rest
    induction rest with
    | nil =>
      intro before entryBuckets heq hlength hentered
      refine ⟨entryBuckets, rfl, hlength, fun i bucket => ?_⟩
      rw [hentered]
      refine ⟨fun h => h.2, fun h => ⟨?_, h⟩⟩
      rw [List.append_nil] at heq
      rw [heq]
      exact lt_length_of_getD_ne (d := 0) (by omega)
    | cons encoded rest ih =>
      intro before entryBuckets heq hlength hentered
      have hget : index.getD before.length 0 = encoded := by
        rw [← heq, List.getD_append_right _ _ _ _ le_rfl, Nat.sub_self]
        rfl
      have hnext : (before ++ [encoded]) ++ rest = index := by simpa using heq
      have hcount : (before ++ [encoded]).length = before.length + 1 := by simp
      unfold Heap.collectEntryBuckets
      by_cases hzero : encoded = 0
      · rw [if_pos hzero, ← hcount]
        refine ih _ _ hnext hlength fun i bucket => ?_
        rw [hentered, hcount]
        refine and_congr_left fun hi => ⟨fun hlt => by omega, fun hlt => ?_⟩
        have hne : bucket ≠ before.length := by
          rintro rfl
          omega
        omega
      · have hsmall := hindex.small before.length
        rw [hget] at hsmall
        have hfree : ¬(entryBuckets.getD (encoded - 1) none).isSome = true := by
          intro hsome
          obtain ⟨bucket, hbucket⟩ := Option.isSome_iff_exists.mp hsome
          obtain ⟨hlt, hsame⟩ := (hentered _ _).mp hbucket
          have := hindex.unique bucket before.length (by omega) (by omega)
          omega
        rw [if_neg hzero, if_neg (by omega), if_neg hfree, ← hcount]
        refine ih _ _ hnext (by rw [List.length_set]; exact hlength) fun i bucket => ?_
        rw [getD_set, hcount]
        split
        · next hi =>
          obtain ⟨rfl, -⟩ := hi
          constructor
          · intro hsome
            cases hsome
            exact ⟨by omega, by omega⟩
          · rintro ⟨-, hsame⟩
            rw [hindex.unique bucket before.length (by omega) (by omega)]
        · next hi =>
          rw [hentered]
          refine and_congr_left fun hsame => ⟨fun hlt => by omega, fun hlt => ?_⟩
          have hne : bucket ≠ before.length := by
            rintro rfl
            exact hi ⟨by omega, by omega⟩
          omega
  obtain ⟨result, hresult, hlength, hentered⟩ := hloop index [] (List.replicate homes.length none) rfl
    (by simp) (by simp)
  exact ⟨result, hresult, hlength, hentered⟩

theorem probeReaches_home {index : List ℕ} {home target : ℕ} (hc : IsCapacity index.length)
    (hprobes : Probes index (home % index.length) target) :
    Heap.probeReaches index target index.length (home &&& (index.length - 1)) = true := by
  obtain ⟨d, hd, htarget, hbetween⟩ := hprobes
  have hpos := hc.pos
  rw [hc.mask]
  exact probeReaches_of_probes hc hd htarget hbetween (Nat.mod_lt _ (by omega))

/-- The index that inserting the entries builds passes the validator. -/
theorem validateMapLookupIndex_eq_ok {h : Heap} {m : MapPayload}
    (hcapacity : mapLookupIndexCapacity m.entries.length = .ok m.lookupIndex.length)
    (hindex : h.insertMapEntries m.entries 0 (List.replicate m.lookupIndex.length 0) =
      .ok m.lookupIndex) : h.validateMapLookupIndex m = .ok () := by
  -- the hashes of the keys, the buckets of the entries and the probes between them
  have hparts : ∃ hashes entryBuckets,
      m.entries.mapM (fun entry => h.mapKeyHash entry.key) = .ok hashes ∧
      Heap.collectEntryBuckets m.entries.length m.lookupIndex 0
        (List.replicate m.entries.length none) = .ok entryBuckets ∧
      entryBuckets.any (·.isNone) = false ∧
      ∀ p ∈ hashes.zip entryBuckets, Heap.probeReaches m.lookupIndex (p.2.getD 0)
        m.lookupIndex.length (p.1.toNat &&& (m.lookupIndex.length - 1)) = true := by
    rcases mapLookupIndexCapacity_eq_ok hcapacity with ⟨hentries, hlength⟩ | ⟨hc, hhalf⟩
    · obtain hentries := List.length_eq_zero_iff.mp hentries
      obtain hlookup := List.length_eq_zero_iff.mp hlength
      rw [hentries, hlookup]
      exact ⟨[], [], rfl, rfl, rfl, fun _ hno => by cases hno⟩
    · have hpos := hc.pos
      have hreplicate : (List.replicate m.lookupIndex.length 0).length = m.lookupIndex.length :=
        List.length_replicate
      obtain ⟨-, hashes, hhashes, hindexes⟩ := insertMapEntries_indexes
        (by rwa [hreplicate]) (by rw [hreplicate, List.length_nil]; omega) (indexes_replicate _) hindex
      rw [List.nil_append, hreplicate] at hindexes
      have hcount : m.entries.length = hashes.length := by
        have hall := yields_mapM (R := fun _ _ => True) (E := fun _ => True)
          (f := fun entry : MapEntry => h.mapKeyHash entry.key) (l := m.entries)
          fun entry _ => yields_iff.mpr ⟨fun _ _ => trivial, fun _ _ => trivial⟩
        exact (hall.of_ok hhashes).length_eq
      obtain ⟨entryBuckets, hbuckets, hlength, hentered⟩ := collectEntryBuckets_eq_ok hindexes
      rw [List.length_map, ← hcount] at hbuckets hlength
      -- the bucket of an entry is where the probe of its hash ends
      have hbucket : ∀ i hash, hashes[i]? = some hash → ∃ bucket,
          entryBuckets.getD i none = some bucket ∧
            Probes m.lookupIndex (hash.toNat % m.lookupIndex.length) bucket := by
        intro i hash hi
        obtain ⟨bucket, hb, hprobes⟩ := hindexes.entry i (hash.toNat % m.lookupIndex.length)
          (by rw [List.getElem?_map, hi]; rfl)
        exact ⟨bucket, (hentered i bucket).mpr hb, hprobes⟩
      refine ⟨hashes, entryBuckets, hhashes, hbuckets, ?_, ?_⟩
      · rw [List.any_eq_false]
        intro bucket hmem
        obtain ⟨i, hi, hget⟩ := List.getElem_of_mem hmem
        obtain ⟨bucket', hb, -⟩ := hbucket i (hashes[i]) (List.getElem?_eq_getElem (by omega))
        rw [List.getD_eq_getElem _ _ hi, hget] at hb
        rw [hb]
        exact Bool.false_ne_true
      · rintro ⟨hash, bucket⟩ hmem
        obtain ⟨i, hi, hget⟩ := List.getElem_of_mem hmem
        rw [List.length_zip] at hi
        rw [List.getElem_zip, Prod.mk.injEq] at hget
        obtain ⟨bucket', hb, hprobes⟩ := hbucket i hash
          (by rw [List.getElem?_eq_getElem (by omega), hget.1])
        rw [List.getD_eq_getElem _ _ (by omega), hget.2] at hb
        rw [hb]
        exact probeReaches_home hc hprobes
  obtain ⟨hashes, entryBuckets, hhashes, hbuckets, hall, hprobes⟩ := hparts
  unfold Heap.validateMapLookupIndex
  simp only [hcapacity, ok_bind, ne_eq, not_true_eq_false, if_false, hbuckets, hall,
    Bool.false_eq_true, hhashes, hindex]
  exact bind_eq_ok.mpr ⟨(), forM_eq_ok.mpr fun p hp => if_pos (hprobes p hp), rfl⟩

end LanguageRuntime.Gc
