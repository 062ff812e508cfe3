import LanguageRuntime.Gc.CompositionTheorems
import LanguageRuntime.Gc.ObjectStore

/-!
# Objects in a store

Along any sequence of events a number that is lost stays lost, an object that is left and not
stored into keeps its fields, and no two entries of a map have the same key.
-/

namespace LanguageRuntime.Gc

open LanguageRuntime LanguageRuntime.Library

theorem Payload.Forwards.congr {F G : ObjectId → Option ObjectId} {p : Payload} (hF : p.Forwards F)
    (heq : ∀ id, .object id ∈ p.allFields → F id = G id) : p.Forwards G := by
  refine ⟨fun id hid => heq id (List.mem_append_left _ hid) ▸ hF.1 id hid, ?_⟩
  rintro key value rfl hkey
  rw [← heq key (by simp [allFields, weakFields])] at hkey
  rw [← heq value (by simp [allFields, weakFields])]
  exact hF.2 key value rfl hkey

namespace Store

/-! ## Collections -/

section Collects

variable {s s₁ s₂ s' : Store} {k : ℕ} {id : ObjectId} {p p' : Payload} {value : Value}

theorem isSome_keep : (s.keep id).isSome = true ↔ s.Alive id.slot := by
  unfold keep
  split <;> simp [*]

theorem keep_of_alive (halive : s.Alive id.slot) : s.keep id = some id := if_pos halive

theorem alive_of_objects (hp : s.objects k = some p) : s.Alive k :=
  Option.isSome_iff_exists.mpr ⟨p, hp⟩

/-- A payload whose fields are all alive is not changed. -/
theorem forward_keep_of_alive (halive : ∀ id, .object id ∈ p.allFields → s.Alive id.slot) :
    p.forward s.keep = p := by
  rw [Payload.forward_congr fun id hid => keep_of_alive (halive id hid), Payload.forward_some]

theorem forwards_keep_of_alive (halive : ∀ id, .object id ∈ p.allFields → s.Alive id.slot) :
    p.Forwards s.keep := by
  refine ⟨fun id hid => isSome_keep.mpr (halive id (List.mem_append_left _ hid)), ?_⟩
  rintro key value rfl -
  exact isSome_keep.mpr (halive value (by simp [Payload.allFields, Payload.weakFields]))

/-- A payload without weak fields is not changed. -/
theorem forward_keep_strong (hweak : p.weakFields = []) (hp : p.Forwards s.keep) :
    p.forward s.keep = p := by
  refine forward_keep_of_alive fun id hid => ?_
  rw [Payload.allFields, hweak, List.append_nil] at hid
  exact isSome_keep.mp (hp.1 id hid)

/-- All references are to objects that the store holds, the numbers of those have been given out,
no two entries of a map have the same key, and no two canonical strings have the same bytes. -/
structure Sound (s : Store) : Prop where
  closed : s.Closed
  below : ∀ k, s.Alive k → k < s.next
  rooted : ∀ k, .object (numbered k) ∈ s.held → s.Alive k
  distinct : ∀ k m, s.objects k = some (.map m) →
    m.entries.Pairwise fun e e' => s.sameKey m.keyIsRef e.key e'.key = false
  strings : ∀ k, s.interned k → ∃ content, s.objects k = some (.str content)
  canonical : ∀ j k, s.interned j → s.interned k → s.objects j = s.objects k → j = k

theorem not_alive_empty : ¬empty.Alive k := Bool.false_ne_true

theorem sound_empty : empty.Sound where
  closed _ _ hp := nomatch hp
  below _ hk := absurd hk not_alive_empty
  rooted _ hk := nomatch hk
  distinct _ _ hm := nomatch hm
  strings _ hk := nomatch hk
  canonical _ _ hj := nomatch hj

theorem objects_allocated {j : ℕ} :
    (s.allocated k p).objects j = if j = k then some p else s.objects j := rfl

theorem objects_updated {j : ℕ} :
    (s.updated k p).objects j = if j = k then some p else s.objects j := rfl

theorem updated_self (hk : s.objects k = some p) : s.updated k p = s := by
  have hobjects : (s.updated k p).objects = s.objects := by
    funext j
    rw [objects_updated]
    split
    · next hj => rw [hj, hk]
    · rfl
  have heq : s.updated k p = { s with objects := (s.updated k p).objects } := rfl
  rw [heq, hobjects]

theorem alive_allocated {j : ℕ} : (s.allocated k p).Alive j ↔ j = k ∨ s.Alive j := by
  unfold Alive
  rw [objects_allocated]
  split <;> simp [*]

theorem alive_updated {j : ℕ} : (s.updated k p).Alive j ↔ j = k ∨ s.Alive j := by
  unfold Alive
  rw [objects_updated]
  split <;> simp [*]

theorem Sound.collects (hs : s.Sound) : s.Collects s where
  roots := rfl
  handles := rfl
  rooted := hs.rooted
  kept k p hp := ⟨p, hp, forwards_keep_of_alive (hs.closed k p hp),
    (forward_keep_of_alive (hs.closed k p hp)).symm⟩
  closed := hs.closed
  interned k := by
    refine ⟨fun hk => ⟨hk, ?_⟩, fun hk => hk.1⟩
    obtain ⟨content, hcontent⟩ := hs.strings k hk
    exact alive_of_objects hcontent
  next := Nat.le_refl _

theorem Collects.alive (hc : s.Collects s') (hk : s'.Alive k) : s.Alive k := by
  obtain ⟨p', hp'⟩ := Option.isSome_iff_exists.mp hk
  obtain ⟨p, hp, -⟩ := hc.kept k p' hp'
  exact alive_of_objects hp

theorem Collects.held (hc : s.Collects s') : s'.held = s.held := by
  rw [Store.held, Store.held, hc.roots, hc.handles]

/-- Clearing what one collection has lost and then what another has, when the second keeps no
more. -/
theorem forward_keep_keep (hF : p.Forwards s₁.keep) (hG : (p.forward s₁.keep).Forwards s₂.keep)
    (hsub : ∀ id, .object id ∈ p.allFields → s₂.Alive id.slot → s₁.Alive id.slot) :
    p.Forwards s₂.keep ∧ (p.forward s₁.keep).forward s₂.keep = p.forward s₂.keep := by
  have hbind : ∀ id, .object id ∈ p.allFields →
      (s₁.keep id).bind s₂.keep = s₂.keep id := by
    intro id hid
    by_cases halive : s₂.Alive id.slot
    · rw [keep_of_alive (hsub id hid halive), Option.bind_some]
    · have hnone : s₂.keep id = none := if_neg halive
      rw [hnone]
      by_cases halive₁ : s₁.Alive id.slot
      · rw [keep_of_alive halive₁, Option.bind_some, hnone]
      · have hnone₁ : s₁.keep id = none := if_neg halive₁
        rw [hnone₁, Option.bind_none]
  have hall := hF.bind hG
  constructor
  · constructor
    · intro id hid
      have hsome : ((s₁.keep id).bind s₂.keep).isSome = true := hall.1 id hid
      rwa [hbind id (List.mem_append_left _ hid)] at hsome
    · rintro key value rfl hkey
      have hkey' := hbind key (by simp [Payload.allFields, Payload.weakFields])
      have hvalue' := hbind value (by simp [Payload.allFields, Payload.weakFields])
      have hsome : ((s₁.keep value).bind s₂.keep).isSome = true :=
        hall.2 key value rfl (show ((s₁.keep key).bind s₂.keep).isSome = true from hkey' ▸ hkey)
      rwa [hvalue'] at hsome
  · rw [Payload.forward_bind hF hG]
    exact Payload.forward_congr hbind

/-- Two collections in a row are one. -/
theorem Collects.trans (hc : s.Collects s₁) (hc' : s₁.Collects s₂) : s.Collects s₂ where
  roots := hc'.roots.trans hc.roots
  handles := hc'.handles.trans hc.handles
  rooted k hk := hc'.rooted k (hc.held ▸ hk)
  kept k p₂ hp₂ := by
    obtain ⟨p₁, hp₁, hG, rfl⟩ := hc'.kept k p₂ hp₂
    obtain ⟨p, hp, hF, rfl⟩ := hc.kept k p₁ hp₁
    obtain ⟨hforwards, heq⟩ := forward_keep_keep hF hG fun id _ halive => hc'.alive halive
    exact ⟨p, hp, hforwards, heq⟩
  closed := hc'.closed
  interned k := by
    rw [hc'.interned, hc.interned, and_assoc, and_congr_right_iff]
    exact fun _ => and_iff_right_of_imp hc'.alive
  next := hc.next.trans hc'.next

/-- A collection that keeps what a new object refers to may come before its birth or after it. -/
theorem Collects.allocated (hc : s.Collects s') (hs : s.Sound) (hfresh : s'.next ≤ k)
    (hfields : ∀ id, .object id ∈ p.allFields → s'.Alive id.slot) :
    (s.allocated k p).Collects (s'.allocated k p) := by
  have halive : ∀ j, s'.Alive j → (s'.allocated k p).Alive j := fun j hj => by
    rw [alive_allocated]
    exact .inr hj
  have hfields' : ∀ id, .object id ∈ p.allFields → (s'.allocated k p).Alive id.slot :=
    fun id hid => halive _ (hfields id hid)
  constructor
  · exact hc.roots
  · exact hc.handles
  · exact fun j hj => halive j (hc.rooted j hj)
  · intro j q hq
    rw [objects_allocated] at hq ⊢
    split at hq
    · next hj =>
      cases hq
      rw [if_pos hj]
      exact ⟨p, rfl, forwards_keep_of_alive hfields', (forward_keep_of_alive hfields').symm⟩
    · next hj =>
      rw [if_neg hj]
      obtain ⟨q₀, hq₀, hF, rfl⟩ := hc.kept j q hq
      -- the old objects do not know the new number
      have hkeep : ∀ id, .object id ∈ q₀.allFields → (s'.allocated k p).keep id = s'.keep id := by
        intro id hid
        have hbelow := hs.below _ (hs.closed j q₀ hq₀ id hid)
        have hnext := hc.next
        have hne : id.slot ≠ k := by omega
        unfold keep
        simp only [alive_allocated, hne, false_or]
      exact ⟨q₀, hq₀, hF.congr fun id hid => (hkeep id hid).symm,
        (Payload.forward_congr hkeep).symm⟩
  · intro j q hq id hid
    rw [objects_allocated] at hq
    split at hq
    · cases hq
      exact hfields' id hid
    · exact halive _ (hc.closed j q hq id hid)
  · intro j
    show s'.interned j ↔ s.interned j ∧ _
    rw [hc.interned, alive_allocated, and_congr_right_iff]
    intro hj
    obtain ⟨content, hcontent⟩ := hs.strings j hj
    have hbelow := hs.below j (alive_of_objects hcontent)
    have hnext := hc.next
    exact ⟨.inr, fun hor => hor.resolve_left (by omega)⟩
  · exact Nat.le_refl _

/-- A string that is left may become canonical before a collection or after it. -/
theorem Collects.canonized (hc : s.Collects s') (hk : s'.Alive k) :
    (s.canonized k).Collects (s'.canonized k) where
  roots := hc.roots
  handles := hc.handles
  rooted := hc.rooted
  kept := hc.kept
  closed := hc.closed
  interned j := by
    show j = k ∨ s'.interned j ↔ (j = k ∨ s.interned j) ∧ s'.Alive j
    rw [hc.interned, or_and_right]
    refine or_congr_left ⟨fun heq => ⟨heq, heq ▸ hk⟩, fun hand => hand.1⟩
  next := hc.next

end Collects

/-! ## Strings and keys -/

section Keys

variable {s s' : Store} {k : ℕ} {id : ObjectId} {p p' : Payload} {value key : Value}
  {content : List UInt8} {m : MapPayload}

theorem bytes_eq_some : s.bytes value = some content ↔
    ∃ id, value = .object id ∧ s.objects id.slot = some (.str content) := by
  constructor
  · intro hbytes
    unfold bytes at hbytes
    split at hbytes
    · next id =>
      split at hbytes
      · next hp => exact ⟨id, rfl, Option.some.inj hbytes ▸ hp⟩
      · cases hbytes
    · cases hbytes
  · rintro ⟨id, rfl, hp⟩
    simp only [bytes, hp]

/-- Values that no object was lost of have the bytes they had. -/
theorem bytes_congr (hsame : ∀ id, value = .object id → ∀ content,
    s'.objects id.slot = some (.str content) ↔ s.objects id.slot = some (.str content)) :
    s'.bytes value = s.bytes value := by
  refine Option.ext fun content => ?_
  rw [bytes_eq_some, bytes_eq_some]
  constructor
  · rintro ⟨id, rfl, hp⟩
    exact ⟨id, rfl, (hsame id rfl content).mp hp⟩
  · rintro ⟨id, rfl, hp⟩
    exact ⟨id, rfl, (hsame id rfl content).mpr hp⟩

theorem Collects.bytes (hc : s.Collects s')
    (halive : ∀ id, value = .object id → s'.Alive id.slot) : s'.bytes value = s.bytes value := by
  refine bytes_congr fun id heq content => ?_
  obtain ⟨p', hp'⟩ := Option.isSome_iff_exists.mp (halive id heq)
  obtain ⟨p, hp, hF, rfl⟩ := hc.kept _ _ hp'
  rw [hp, hp', Option.some.injEq, Option.some.injEq]
  constructor
  · intro hstr
    have hkind : p.kind = .str := by rw [← Payload.kind_forward s'.keep p, hstr]; rfl
    cases p with
    | str bytes => exact hstr
    | _ => exact nomatch hkind
  · rintro rfl
    rfl

/-- A string that is left has its bytes. -/
theorem Collects.objects_string (hc : s.Collects s') (hk : s.objects k = some (.str content))
    (halive : s'.Alive k) : s'.objects k = some (.str content) := by
  obtain ⟨p', hp'⟩ := Option.isSome_iff_exists.mp halive
  obtain ⟨p, hp, -, rfl⟩ := hc.kept k p' hp'
  rw [hk] at hp
  cases hp
  exact hp'

/-- The values of keys that are references are alive in a closed store. -/
theorem Closed.alive_key (hs : s.Closed) (hm : s.objects k = some (.map m)) {entry : MapEntry}
    (hentry : entry ∈ m.entries) (hkey : m.keyIsRef = true) (heq : entry.key = .object id) :
    s.Alive id.slot := by
  refine hs k _ hm id (List.mem_append_left _ (List.mem_flatMap.mpr ⟨entry, hentry, ?_⟩))
  simp [MapEntry.referenceFields, hkey, heq]

theorem sameKey_symm {keyIsRef : Bool} {stored : Value}
    (hsame : s.sameKey keyIsRef stored key = true) : s.sameKey keyIsRef key stored = true := by
  cases keyIsRef with
  | true =>
    have hsame : (s.bytes stored == s.bytes key) = true := hsame
    show (s.bytes key == s.bytes stored) = true
    rw [beq_iff_eq.mp hsame, beq_self_eq_true]
  | false =>
    have hsame : (stored == key) = true := hsame
    show (key == stored) = true
    rw [beq_iff_eq.mp hsame, beq_self_eq_true]

theorem sameKey_trans {keyIsRef : Bool} {stored stored' : Value}
    (hsame : s.sameKey keyIsRef stored key = true) (hsame' : s.sameKey keyIsRef key stored' = true) :
    s.sameKey keyIsRef stored stored' = true := by
  cases keyIsRef with
  | true =>
    have hsame : (s.bytes stored == s.bytes key) = true := hsame
    show (s.bytes stored == s.bytes stored') = true
    rwa [beq_iff_eq.mp hsame]
  | false =>
    have hsame : (stored == key) = true := hsame
    show (stored == stored') = true
    rwa [beq_iff_eq.mp hsame]

/-- Keys whose bytes are the same compare alike. -/
theorem sameKey_congr {keyIsRef : Bool} {stored : Value}
    (hstored : keyIsRef = true → s'.bytes stored = s.bytes stored)
    (hkey : keyIsRef = true → s'.bytes key = s.bytes key) :
    s'.sameKey keyIsRef stored key = s.sameKey keyIsRef stored key := by
  cases keyIsRef with
  | true => simp only [sameKey, if_true, hstored rfl, hkey rfl]
  | false => rfl

theorem accepts_congr (hkey : m.keyIsRef = true → s'.bytes key = s.bytes key) :
    s'.accepts m key = s.accepts m key := by
  unfold accepts
  split
  · next href => rw [hkey href]
  · rfl

theorem findEntry_congr
    (hstored : m.keyIsRef = true → ∀ entry ∈ m.entries, s'.bytes entry.key = s.bytes entry.key)
    (hkey : m.keyIsRef = true → s'.bytes key = s.bytes key) :
    s'.findEntry m key = s.findEntry m key := by
  have hsame : ∀ entry ∈ m.entries,
      s'.sameKey m.keyIsRef entry.key key = s.sameKey m.keyIsRef entry.key key :=
    fun entry hentry => sameKey_congr (fun href => hstored href entry hentry) hkey
  unfold findEntry
  generalize m.entries = entries at hsame
  induction entries with
  | nil => rfl
  | cons entry entries ih =>
    rw [List.findIdx?_cons, List.findIdx?_cons, hsame entry List.mem_cons_self,
      ih fun entry hentry => hsame entry (List.mem_cons_of_mem _ hentry)]

theorem distinct_congr (hbytes : m.keyIsRef = true → ∀ entry ∈ m.entries,
      s'.bytes entry.key = s.bytes entry.key)
    (hm : m.entries.Pairwise fun e e' => s.sameKey m.keyIsRef e.key e'.key = false) :
    m.entries.Pairwise fun e e' => s'.sameKey m.keyIsRef e.key e'.key = false := by
  refine hm.imp_of_mem fun he he' hne => ?_
  rw [sameKey_congr (fun href => hbytes href _ he) fun href => hbytes href _ he', hne]

theorem Collects.sound (hc : s.Collects s') (hs : s.Sound) : s'.Sound where
  closed := hc.closed
  below k hk := (hs.below k (hc.alive hk)).trans_le hc.next
  rooted k hk := hc.rooted k (hc.held ▸ hk)
  distinct k m hm := by
    obtain ⟨p, hp, hF, heq⟩ := hc.kept k _ hm
    have hkind : p.kind = .map := by rw [← Payload.kind_forward s'.keep p, ← heq]; rfl
    cases p with
    | map m₀ =>
      rw [forward_keep_strong rfl hF] at heq
      cases heq
      refine distinct_congr (fun href entry hentry => hc.bytes fun id hkey => ?_) (hs.distinct k m hp)
      exact hc.closed.alive_key hm hentry href hkey
    | _ => exact nomatch hkind
  strings k hk := by
    obtain ⟨hold, halive⟩ := (hc.interned k).mp hk
    obtain ⟨content, hcontent⟩ := hs.strings k hold
    exact ⟨content, hc.objects_string hcontent halive⟩
  canonical j k hj hk heq := by
    obtain ⟨hj', halive⟩ := (hc.interned j).mp hj
    obtain ⟨hk', halive'⟩ := (hc.interned k).mp hk
    obtain ⟨content, hcontent⟩ := hs.strings j hj'
    obtain ⟨content', hcontent'⟩ := hs.strings k hk'
    rw [hc.objects_string hcontent halive, hc.objects_string hcontent' halive'] at heq
    exact hs.canonical j k hj' hk' (by rw [hcontent, hcontent', heq])

/-- A new object is a new object only. -/
theorem Sound.allocated (hs : s.Sound) (hfresh : s.next ≤ k)
    (hfields : ∀ id, .object id ∈ p.allFields → s.Alive id.slot)
    (hempty : ∀ m, p = .map m → m.entries = []) : (s.allocated k p).Sound := by
  have hold : ∀ j, s.Alive j → (s.allocated k p).objects j = s.objects j := fun j halive => by
    have hbelow := hs.below j halive
    rw [objects_allocated, if_neg (by omega)]
  have hbytes : ∀ value : Value, (∀ id, value = .object id → s.Alive id.slot) →
      (s.allocated k p).bytes value = s.bytes value := by
    intro value halive
    refine bytes_congr fun id heq content => ?_
    rw [hold _ (halive id heq)]
  constructor
  · intro j q hq id hid
    rw [alive_allocated]
    rw [objects_allocated] at hq
    split at hq
    · cases hq
      exact .inr (hfields id hid)
    · exact .inr (hs.closed j q hq id hid)
  · intro j hj
    rcases alive_allocated.mp hj with rfl | hj
    · exact Nat.lt_succ_self _
    · exact (hs.below j hj).trans_le (hfresh.trans (Nat.le_succ k))
  · exact fun j hj => alive_allocated.mpr (.inr (hs.rooted j hj))
  · intro j m hm
    rw [objects_allocated] at hm
    split at hm
    · rw [hempty m (Option.some.inj hm)]
      exact List.Pairwise.nil
    · refine distinct_congr (fun href entry hentry => hbytes _ fun id hkey => ?_) (hs.distinct j m hm)
      exact hs.closed.alive_key hm hentry href hkey
  · intro j hj
    obtain ⟨content, hcontent⟩ := hs.strings j hj
    exact ⟨content, (hold j (alive_of_objects hcontent)).trans hcontent⟩
  · intro i j hi hj heq
    obtain ⟨content, hcontent⟩ := hs.strings i hi
    obtain ⟨content', hcontent'⟩ := hs.strings j hj
    rw [hold i (alive_of_objects hcontent), hold j (alive_of_objects hcontent')] at heq
    exact hs.canonical i j hi hj heq

/-- The first canonical string with its bytes. -/
theorem Sound.canonized (hs : s.Sound) (hk : s.objects k = some (.str content))
    (hnew : ∀ j, s.interned j → s.objects j = some (.str content) → j = k) :
    (s.canonized k).Sound where
  closed := hs.closed
  below := hs.below
  rooted := hs.rooted
  distinct := hs.distinct
  strings j hj := by
    rcases hj with rfl | hj
    · exact ⟨content, hk⟩
    · exact hs.strings j hj
  canonical i j hi hj heq := by
    have heq : s.objects i = s.objects j := heq
    rcases hi with rfl | hi
    · rcases hj with rfl | hj
      · rfl
      · exact (hnew j hj (heq ▸ hk)).symm
    · rcases hj with rfl | hj
      · exact hnew i hi (heq.trans hk)
      · exact hs.canonical i j hi hj heq

/-- No two entries have the same key after a store. -/
theorem distinct_setEntry (hm : m.entries.Pairwise fun e e' => s.sameKey m.keyIsRef e.key e'.key = false) :
    (s.setEntry m key value).entries.Pairwise
      fun e e' => s.sameKey m.keyIsRef e.key e'.key = false := by
  unfold setEntry
  split
  · next entry hentry =>
    have hkeys : (m.overwrite entry value).entries.map MapEntry.key = m.entries.map MapEntry.key := by
      refine List.ext_getElem? fun i => ?_
      simp only [MapPayload.overwrite, List.getElem?_map, List.getElem?_modify]
      split <;> cases m.entries[i]? <;> rfl
    have hpair : (m.entries.map MapEntry.key).Pairwise
        fun key key' => s.sameKey m.keyIsRef key key' = false := List.pairwise_map.mpr hm
    rw [← hkeys] at hpair
    exact List.pairwise_map.mp hpair
  · next hnone =>
    refine List.pairwise_append.mpr ⟨hm, List.pairwise_singleton _ _, fun e he e' he' => ?_⟩
    cases List.mem_singleton.mp he'
    have hall := List.findIdx?_eq_none_iff.mp hnone e he
    simpa using hall

/-- A store is into an object of a kind that can be stored into, and keeps the kind. -/
theorem newFields_kind {op : Operation} (hp' : s.newFields op p = some p') :
    p.kind.frozen = false ∧ p'.kind = p.kind := by
  cases op with
  | setField id field value =>
    cases p <;> cases hp'
    cases field <;> exact ⟨rfl, rfl⟩
  | builderAppend id source =>
    cases p with
    | builder capacity bytes =>
      obtain ⟨appended, -, heq⟩ := Option.bind_eq_some_iff.mp hp'
      cases heq
      exact ⟨rfl, rfl⟩
    | _ => cases hp'
  | arraySet id index element =>
    cases p with
    | scalarArray elements =>
      obtain ⟨-, heq⟩ := Option.ite_none_right_eq_some.mp hp'
      cases heq
      exact ⟨rfl, rfl⟩
    | _ => cases hp'
  | refArraySet id index value =>
    cases p with
    | refArray elements =>
      obtain ⟨-, heq⟩ := Option.ite_none_right_eq_some.mp hp'
      cases heq
      exact ⟨rfl, rfl⟩
    | _ => cases hp'
  | mapSet id key value =>
    cases p with
    | map m =>
      obtain ⟨-, heq⟩ := Option.ite_none_right_eq_some.mp hp'
      cases heq
      exact ⟨rfl, rfl⟩
    | _ => cases hp'
  | recordSet id index value =>
    cases p with
    | record layoutIndex fields refMap =>
      obtain ⟨-, heq⟩ := Option.ite_none_right_eq_some.mp hp'
      cases heq
      exact ⟨rfl, rfl⟩
    | _ => cases hp'
  | ephemeronSetValue id value =>
    cases p with
    | ephemeron key old valueIsRef =>
      obtain ⟨-, heq⟩ := Option.ite_none_left_eq_some.mp hp'
      cases heq
      exact ⟨rfl, rfl⟩
    | _ => cases hp'
  | _ => cases p <;> cases hp' <;> exact ⟨rfl, rfl⟩

/-- A map is stored into by `map_set`. -/
theorem newFields_eq_map {op : Operation} {m' : MapPayload} (hp' : s.newFields op p = some (.map m')) :
    ∃ id key value m, op = .mapSet id key value ∧ p = .map m ∧ m' = s.setEntry m key value := by
  have hkind := (newFields_kind hp').2
  cases p with
  | map m =>
    cases op with
    | mapSet id key value =>
      obtain ⟨-, heq⟩ := Option.ite_none_right_eq_some.mp hp'
      cases heq
      exact ⟨id, key, value, m, rfl, rfl, rfl⟩
    | _ => cases hp'
  | _ => exact nomatch hkind

/-- A map is allocated without entries. -/
theorem newPayload_eq_map {op : Operation} (hp : s.newPayload op = some (.map m)) : m.entries = [] := by
  cases op with
  | allocateMap l keyIsRef valueIsRef =>
    cases hp
    rfl
  | builderToString builder =>
    cases builder with
    | object id =>
      simp only [newPayload] at hp
      split at hp <;> cases hp
    | _ => cases hp
  | allocateStringConcat left right =>
    obtain ⟨_, -, hp⟩ := Option.bind_eq_some_iff.mp hp
    obtain ⟨_, -, hp⟩ := Option.bind_eq_some_iff.mp hp
    cases hp
  | allocateStringSubstring source lo hi =>
    obtain ⟨_, -, hp⟩ := Option.bind_eq_some_iff.mp hp
    cases hp
  | _ => cases hp

@[simp] theorem setEntry_keyIsRef : (s.setEntry m key value).keyIsRef = m.keyIsRef := by
  unfold setEntry
  split <;> rfl

theorem Sound.updated {op : Operation} (hs : s.Sound) (hp : s.objects k = some p)
    (hp' : s.newFields op p = some p')
    (hfields : ∀ id, .object id ∈ p'.allFields → s.Alive id.slot) : (s.updated k p').Sound := by
  have hstring : ∀ j content, (s.updated k p').objects j = some (.str content) ↔
      s.objects j = some (.str content) := by
    intro j content
    rw [objects_updated]
    split
    · next heq =>
      obtain ⟨hfrozen, hkind⟩ := newFields_kind hp'
      rw [heq, hp]
      constructor
      · intro hstr
        cases hstr
        rw [← hkind] at hfrozen
        cases hfrozen
      · intro hstr
        cases hstr
        cases hfrozen
    · exact Iff.rfl
  have hbytes : ∀ value, (s.updated k p').bytes value = s.bytes value := fun value =>
    bytes_congr fun id _ content => hstring _ content
  have hold : ∀ j, (s.updated k p').Alive j ↔ s.Alive j := by
    intro j
    rw [alive_updated]
    exact or_iff_right_of_imp fun heq => heq ▸ alive_of_objects hp
  constructor
  · intro j q hq id hid
    rw [hold]
    rw [objects_updated] at hq
    split at hq
    · cases hq
      exact hfields id hid
    · exact hs.closed j q hq id hid
  · exact fun j hj => hs.below j ((hold j).mp hj)
  · exact fun j hj => (hold j).mpr (hs.rooted j hj)
  · intro j m' hm'
    refine distinct_congr (s := s) (fun _ entry _ => hbytes _) ?_
    rw [objects_updated] at hm'
    split at hm'
    · obtain ⟨id, key, value, m, -, rfl, rfl⟩ := newFields_eq_map (Option.some.inj hm' ▸ hp')
      rw [setEntry_keyIsRef]
      exact distinct_setEntry (hs.distinct k m hp)
    · exact hs.distinct j m' hm'
  · intro j hj
    obtain ⟨content, hcontent⟩ := hs.strings j hj
    exact ⟨content, (hstring j content).mpr hcontent⟩
  · intro i j hi hj heq
    obtain ⟨content, hcontent⟩ := hs.strings i hi
    obtain ⟨content', hcontent'⟩ := hs.strings j hj
    rw [(hstring i content).mpr hcontent, (hstring j content').mpr hcontent'] at heq
    exact hs.canonical i j hi hj (by rw [hcontent, hcontent', heq])

end Keys

/-! ## Events -/

section Events

variable {s s₁ s₂ s' : Store} {k : ℕ} {p p' : Payload} {event : Event} {events : List Event}

theorem Step.sound (hs : s.Sound) (hstep : s.Step event s') : s'.Sound := by
  cases hstep with
  | setRoots halive =>
    refine ⟨hs.closed, hs.below, fun k hk => ?_, hs.distinct, hs.strings, hs.canonical⟩
    rcases List.mem_append.mp hk with hroot | hhandle
    · exact halive k hroot
    · exact hs.rooted k (List.mem_append_right _ hhandle)
  | allocates hbefore hp hfresh hfields hafter _ =>
    have hs₁ := hbefore.sound hs
    exact hafter.sound (hs₁.allocated hfresh hfields fun m hm => newPayload_eq_map (hm ▸ hp))
  | interned hbefore _ _ _ => exact hbefore.sound hs
  | @interns _ s₁ _ k content hbefore _ hnew hfresh hafter _ =>
    have hborn : (s₁.allocated k (.str content)).Sound :=
      (hbefore.sound hs).allocated hfresh nofun nofun
    refine hafter.sound (hborn.canonized (if_pos rfl) fun j hj hbytes => ?_)
    rw [objects_allocated] at hbytes
    split at hbytes
    · assumption
    · exact absurd hbytes (hnew j hj)
  | stores _ hbefore hp hp' hfields hafter =>
    exact hafter.sound ((hbefore.sound hs).updated hp hp' hfields)
  | holds _ halive =>
    refine ⟨hs.closed, hs.below, fun k hk => ?_, hs.distinct, hs.strings, hs.canonical⟩
    rcases List.mem_append.mp hk with hroot | hhandle
    · exact hs.rooted k (List.mem_append_left _ hroot)
    · obtain ⟨root, hroot, hslot⟩ := List.mem_map.mp hhandle
      exact halive root hroot k hslot
  | rests _ _ _ hcollects => exact hcollects.sound hs
  | throws hcollects => exact hcollects.sound hs

theorem Runs.sound (hs : s.Sound) (hruns : s.Runs events s') : s'.Sound := by
  induction hruns with
  | nil => exact hs
  | cons hstep _ ih => exact ih (hstep.sound hs)

theorem Step.next_le (hstep : s.Step event s') : s.next ≤ s'.next := by
  cases hstep with
  | setRoots halive => exact Nat.le_refl _
  | allocates hbefore _ hfresh _ hafter _ =>
    exact hbefore.next.trans ((hfresh.trans (Nat.le_succ _)).trans hafter.next)
  | interned hbefore _ _ _ => exact hbefore.next
  | interns hbefore _ _ hfresh hafter _ =>
    exact hbefore.next.trans ((hfresh.trans (Nat.le_succ _)).trans hafter.next)
  | stores _ hbefore _ _ _ hafter => exact hbefore.next.trans hafter.next
  | holds _ _ => exact Nat.le_refl _
  | rests _ _ _ hcollects => exact hcollects.next
  | throws hcollects => exact hcollects.next

theorem Runs.next_le (hruns : s.Runs events s') : s.next ≤ s'.next := by
  induction hruns with
  | nil => exact Nat.le_refl _
  | cons hstep _ ih => exact hstep.next_le.trans ih

/-- A number that has been given out is not given out again. -/
theorem Step.alive (hstep : s.Step event s') (hk : k < s.next) (halive : s'.Alive k) : s.Alive k := by
  cases hstep with
  | setRoots _ => exact halive
  | allocates hbefore _ hfresh _ hafter _ =>
    have hnext := hbefore.next
    have hold := (alive_allocated.mp (hafter.alive halive)).resolve_left (by omega)
    exact hbefore.alive hold
  | interned hbefore _ _ _ => exact hbefore.alive halive
  | interns hbefore _ _ hfresh hafter _ =>
    have hnext := hbefore.next
    have hold := (alive_allocated.mp (hafter.alive halive)).resolve_left (by omega)
    exact hbefore.alive hold
  | stores _ hbefore hp _ _ hafter =>
    refine hbefore.alive ((alive_updated.mp (hafter.alive halive)).elim (fun heq => ?_) id)
    exact heq ▸ alive_of_objects hp
  | holds _ _ => exact halive
  | rests _ _ _ hcollects => exact hcollects.alive halive
  | throws hcollects => exact hcollects.alive halive

theorem Runs.alive (hruns : s.Runs events s') (hk : k < s.next) (halive : s'.Alive k) : s.Alive k := by
  induction hruns with
  | nil => exact halive
  | cons hstep _ ih => exact hstep.alive hk (ih (hk.trans_le hstep.next_le) halive)

/-- If the object is left, it has its fields, less the weak ones whose target is lost. -/
def KeepsObject (s s' : Store) (k : ℕ) : Prop :=
  ∀ p', s'.objects k = some p' →
    ∃ p, s.objects k = some p ∧ p.Forwards s'.keep ∧ p' = p.forward s'.keep

theorem KeepsObject.trans (hs : s.Sound) (hkeeps : s.KeepsObject s₁ k)
    (hkeeps' : s₁.KeepsObject s₂ k) (hdead : ∀ j < s.next, s₂.Alive j → s₁.Alive j) :
    s.KeepsObject s₂ k := by
  intro p₂ hp₂
  obtain ⟨p₁, hp₁, hG, rfl⟩ := hkeeps' p₂ hp₂
  obtain ⟨p, hp, hF, rfl⟩ := hkeeps p₁ hp₁
  obtain ⟨hforwards, heq⟩ := forward_keep_keep hF hG fun id hid halive =>
    hdead _ (hs.below _ (hs.closed k p hp id hid)) halive
  exact ⟨p, hp, hforwards, heq⟩

/-- An object whose fields all stay alive is kept as it is. -/
theorem keepsObject_of_eq (hs : s.Sound) (hobject : s'.objects k = s.objects k)
    (halive : ∀ j < s.next, s.Alive j → s'.Alive j) : s.KeepsObject s' k := by
  intro p hp
  rw [hobject] at hp
  have hfields : ∀ id, .object id ∈ p.allFields → s'.Alive id.slot := fun id hid =>
    halive _ (hs.below _ (hs.closed k p hp id hid)) (hs.closed k p hp id hid)
  exact ⟨p, hp, forwards_keep_of_alive hfields, (forward_keep_of_alive hfields).symm⟩

end Events

end Store

/-- The object that the event has stored into. -/
def Event.target : Event → Option ObjectId
  | ⟨.call op, some none⟩ => op.owner
  | _ => none

namespace Store

section Frame

variable {s s₁ s₂ s' : Store} {k : ℕ} {p p' : Payload} {event : Event} {events : List Event}

/-- A collection, a birth and another collection keep the old objects. -/
theorem Collects.keepsObject_allocated {j : ℕ} (hbefore : s.Collects s₁) (hs : s.Sound)
    (hfresh : s₁.next ≤ j) (hk : k < s.next) (hkept : (s₁.allocated j p).KeepsObject s' k)
    (halive : ∀ i, s'.Alive i → (s₁.allocated j p).Alive i) : s.KeepsObject s' k := by
  have hnext := hbefore.next
  have hborn : s₁.KeepsObject (s₁.allocated j p) k :=
    keepsObject_of_eq (hbefore.sound hs) (by rw [objects_allocated, if_neg (by omega)])
      fun _ _ halive => alive_allocated.mpr (.inr halive)
  have hafter : s₁.KeepsObject s' k := hborn.trans (hbefore.sound hs) hkept fun i _ => halive i
  refine KeepsObject.trans hs (hbefore.kept k) hafter fun i hi hi' => ?_
  exact (alive_allocated.mp (halive i hi')).resolve_left (by omega)

theorem Step.keepsObject (hs : s.Sound) (hstep : s.Step event s') (hk : k < s.next)
    (htarget : ∀ id, event.target = some id → id.slot ≠ k) : s.KeepsObject s' k := by
  cases hstep with
  | setRoots _ => exact keepsObject_of_eq hs rfl fun _ _ halive => halive
  | allocates hbefore _ hfresh _ hafter _ =>
    exact hbefore.keepsObject_allocated hs hfresh hk (hafter.kept k) fun _ halive => hafter.alive halive
  | interned hbefore _ _ _ => exact hbefore.kept k
  | interns hbefore _ _ hfresh hafter _ =>
    exact hbefore.keepsObject_allocated hs hfresh hk (hafter.kept k) fun _ halive => hafter.alive halive
  | @stores op owner s₁ _ q q' howner hbefore hp hp' _ hafter =>
    have hne : k ≠ owner.slot := fun heq => htarget owner howner heq.symm
    have hold : ∀ i, (s₁.updated owner.slot q').Alive i ↔ s₁.Alive i := fun i => by
      rw [alive_updated]
      exact or_iff_right_of_imp fun heq => heq ▸ alive_of_objects hp
    have hstored : s₁.KeepsObject (s₁.updated owner.slot q') k :=
      keepsObject_of_eq (hbefore.sound hs) (by rw [objects_updated, if_neg hne])
        fun i _ halive => (hold i).mpr halive
    have hafter' : s₁.KeepsObject s' k := hstored.trans (hbefore.sound hs) (hafter.kept k)
      fun i _ halive => hafter.alive halive
    exact KeepsObject.trans hs (hbefore.kept k) hafter' fun i _ halive =>
      (hold i).mp (hafter.alive halive)
  | holds _ _ => exact keepsObject_of_eq hs rfl fun _ _ halive => halive
  | rests _ _ _ hcollects => exact hcollects.kept k
  | throws hcollects => exact hcollects.kept k

/-- An object that nothing is stored into keeps its fields along any sequence of events. -/
theorem Runs.keepsObject (hs : s.Sound) (hruns : s.Runs events s') (hk : k < s.next)
    (htarget : ∀ event ∈ events, ∀ id, event.target = some id → id.slot ≠ k) :
    s.KeepsObject s' k := by
  induction hruns with
  | nil s => exact keepsObject_of_eq hs rfl fun _ _ halive => halive
  | cons hstep hruns ih =>
    have hbefore := hstep.keepsObject hs hk (htarget _ List.mem_cons_self)
    have hafter := ih (hstep.sound hs) (hk.trans_le hstep.next_le)
      fun event hevent => htarget event (List.mem_cons_of_mem _ hevent)
    exact hbefore.trans hs hafter fun j hj halive => hruns.alive (hj.trans_le hstep.next_le) halive

end Frame

end Store

end LanguageRuntime.Gc
