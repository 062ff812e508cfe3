import LanguageRuntime.Gc.State

/-!
# The lookup index of a map

Content hashing, the open-addressing index over the ordered entries of a map, and the
validator that rebuilds it (`map_key_hash .. find_map_entry` of `src/gc/heap.cpp`).
-/

namespace LanguageRuntime.Gc

open LanguageRuntime

/-- `std::numeric_limits<std::size_t>::max()`. -/
def sizeLimit : ℕ := 2 ^ 64 - 1

def kMapHashOffsetBasis : UInt64 := 14695981039346656037

def kMapHashPrime : UInt64 := 1099511628211

def kMapHashI64Domain : UInt8 := 1

def kMapHashBoolDomain : UInt8 := 2

def kMapHashStringDomain : UInt8 := 3

def kMapIndexMinimumCapacity : ℕ := 8

def appendMapHashByte (hash : UInt64) (byte : UInt8) : UInt64 :=
  (hash ^^^ byte.toUInt64) * kMapHashPrime

def stringContentHash (bytes : List UInt8) : UInt64 :=
  bytes.foldl appendMapHashByte (appendMapHashByte kMapHashOffsetBasis kMapHashStringDomain)

/-- The doubling loop of `map_lookup_index_capacity`. -/
def doubleIndexCapacity (entryCount : ℕ) : ℕ → ℕ → Except HeapError ℕ
  | 0, capacity => .ok capacity
  | fuel + 1, capacity =>
    if capacity / 2 < entryCount then
      if sizeLimit / 2 < capacity then
        .error (.lengthError "map lookup index capacity overflow")
      else doubleIndexCapacity entryCount fuel (capacity * 2)
    else .ok capacity

/-- `map_lookup_index_capacity`. The capacity leaves the range of `std::size_t` before the
64th doubling, so the loop never runs out. -/
def mapLookupIndexCapacity (entryCount : ℕ) : Except HeapError ℕ :=
  if entryCount = 0 then .ok 0 else doubleIndexCapacity entryCount 64 kMapIndexMinimumCapacity

def encodedMapEntryIndex (entryIndex : ℕ) : Except HeapError ℕ :=
  if entryIndex = sizeLimit then .error (.lengthError "map lookup entry index overflow")
  else .ok (entryIndex + 1)

def isPowerOfTwo (n : ℕ) : Bool := n &&& (n - 1) == 0

/-- The probe loop of `find_open_map_bucket`: `remaining` buckets are still to be examined. -/
def probeOpenBucket (index : List ℕ) : ℕ → ℕ → Except HeapError ℕ
  | 0, _ => .error (.logicError "map lookup index has no empty bucket")
  | remaining + 1, bucket =>
    if index.getD bucket 0 = 0 then .ok bucket
    else probeOpenBucket index remaining ((bucket + 1) &&& (index.length - 1))

def findOpenMapBucket (index : List ℕ) (hash : UInt64) : Except HeapError ℕ :=
  if index.isEmpty || !isPowerOfTwo index.length then
    .error (.logicError "map lookup index capacity is not a power of two")
  else probeOpenBucket index index.length (hash.toNat &&& (index.length - 1))

namespace Heap

def validateMapKey (h : Heap) (map : MapPayload) (key : Value) : Except HeapError Unit :=
  if map.keyIsRef then
    match key with
    | .object id => do let _ ← h.checkedString id
    | _ => .error (.logicError "map string key must be an object reference")
  else if key.isScalar then .ok ()
  else .error (.logicError "map scalar key must be i64 or bool")

def validateMapValue (h : Heap) (map : MapPayload) (value : Value) : Except HeapError Unit :=
  if map.valueIsRef then
    match value with
    | .object id => do let _ ← h.checkedSlot id
    | .nil => .ok ()
    | _ => .error (.logicError "map reference value must carry Object or Nil tag")
  else if value.isScalar then .ok ()
  else .error (.logicError "map scalar value must be i64 or bool")

def mapKeyHash (h : Heap) (key : Value) : Except HeapError UInt64 :=
  match key with
  | .int64 v =>
    .ok ((List.range 8).foldl
      (fun hash byte => appendMapHashByte hash (v.toUInt64 >>> (8 * byte).toUInt64).toUInt8)
      (appendMapHashByte kMapHashOffsetBasis kMapHashI64Domain))
  | .bool b =>
    .ok (appendMapHashByte (appendMapHashByte kMapHashOffsetBasis kMapHashBoolDomain)
      (if b then 1 else 0))
  | .object id => stringContentHash <$> h.checkedString id
  | .nil => .error (.logicError "map key hash requires i64, bool, or str")

def mapKeysEqual (h : Heap) (map : MapPayload) (stored query : Value) : Except HeapError Bool :=
  if map.keyIsRef then
    match stored, query with
    | .object left, .object right => h.stringEqual left right
    | _, _ => .error (.logicError "value is not object")
  else
    match stored, query with
    | .int64 a, .int64 b => .ok (a == b)
    | .bool a, .bool b => .ok (a == b)
    | _, _ => .ok false

/-- Puts the entries, in order, into the first open bucket of their probe sequence. -/
def insertMapEntries (h : Heap) : List MapEntry → ℕ → List ℕ → Except HeapError (List ℕ)
  | [], _, index => .ok index
  | entry :: entries, position, index => do
    let bucket ← findOpenMapBucket index (← h.mapKeyHash entry.key)
    insertMapEntries h entries (position + 1)
      (index.set bucket (← encodedMapEntryIndex position))

def buildMapLookupIndex (h : Heap) (map : MapPayload) (capacity : ℕ) :
    Except HeapError (List ℕ) :=
  if capacity = 0 then
    if map.entries.isEmpty then .ok []
    else .error (.logicError "non-empty map requires a lookup index")
  else if capacity < kMapIndexMinimumCapacity ∨ !isPowerOfTwo capacity
      ∨ capacity / 2 < map.entries.length then
    .error (.logicError "map lookup index rebuild capacity cannot hold entries")
  else h.insertMapEntries map.entries 0 (List.replicate capacity 0)

/-- The first pass of `validate_map_lookup_index`: the bucket of every entry, each named
once. -/
def collectEntryBuckets (entryCount : ℕ) :
    List ℕ → ℕ → List (Option ℕ) → Except HeapError (List (Option ℕ))
  | [], _, entryBuckets => .ok entryBuckets
  | encoded :: index, bucket, entryBuckets =>
    if encoded = 0 then collectEntryBuckets entryCount index (bucket + 1) entryBuckets
    else if entryCount ≤ encoded - 1 then
      .error (.logicError "map lookup index bucket names an out-of-range entry")
    else if (entryBuckets.getD (encoded - 1) none).isSome then
      .error (.logicError "map lookup index contains a duplicate entry")
    else collectEntryBuckets entryCount index (bucket + 1)
      (entryBuckets.set (encoded - 1) (some bucket))

/-- The probe of `validate_map_lookup_index` from the home bucket of an entry to the bucket
that names it. -/
def probeReaches (index : List ℕ) (target : ℕ) : ℕ → ℕ → Bool
  | 0, _ => false
  | remaining + 1, bucket =>
    if bucket = target then true
    else if index.getD bucket 0 = 0 then false
    else probeReaches index target remaining ((bucket + 1) &&& (index.length - 1))

def validateMapLookupIndex (h : Heap) (map : MapPayload) : Except HeapError Unit := do
  let expectedCapacity ← mapLookupIndexCapacity map.entries.length
  if map.lookupIndex.length ≠ expectedCapacity then
    throw (.logicError "map lookup index capacity does not match entry count")
  let entryBuckets ← collectEntryBuckets map.entries.length map.lookupIndex 0
    (List.replicate map.entries.length none)
  if entryBuckets.any (·.isNone) then
    throw (.logicError "map lookup index is missing an ordered entry")
  let hashes ← map.entries.mapM fun entry => h.mapKeyHash entry.key
  let expected ← h.insertMapEntries map.entries 0 (List.replicate expectedCapacity 0)
  (hashes.zip entryBuckets).forM fun (hash, bucket) =>
    if probeReaches map.lookupIndex (bucket.getD 0) map.lookupIndex.length
        (hash.toNat &&& (map.lookupIndex.length - 1)) then .ok ()
    else .error (.logicError "map lookup index entry is unreachable from its hash")
  if expected ≠ map.lookupIndex then
    throw (.logicError "map lookup index bucket does not match ordered entries")

/-- The probe loop of `find_map_entry`. -/
def probeMapEntry (h : Heap) (map : MapPayload) (key : Value) :
    ℕ → ℕ → Except HeapError (Option ℕ)
  | 0, _ => .error (.logicError "map lookup index probe did not reach an empty bucket")
  | remaining + 1, bucket =>
    match map.lookupIndex.getD bucket 0 with
    | 0 => .ok none
    | entry + 1 =>
      match map.entries[entry]? with
      | none => .error (.logicError "map lookup index bucket names an out-of-range entry")
      | some stored => do
        if ← h.mapKeysEqual map stored.key key then return some entry
        probeMapEntry h map key remaining ((bucket + 1) &&& (map.lookupIndex.length - 1))

def findMapEntry (h : Heap) (id : ObjectId) (key : Value) : Except HeapError (Option ℕ) := do
  let (_, _, map) ← h.checkedMap id
  h.validateMapKey map key
  if map.lookupIndex.isEmpty then return none
  h.probeMapEntry map key map.lookupIndex.length
    ((← h.mapKeyHash key).toNat &&& (map.lookupIndex.length - 1))

end Heap

end LanguageRuntime.Gc
