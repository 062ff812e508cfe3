import LanguageRuntime.Gc.ReplayTheorems
import LanguageRuntime.Library.Dictionary

/-!
# Maps as dictionaries in insertion order

After any sequence of actions a map is the dictionary that the stores into it have made, with
strings as keys by their bytes: a lookup finds the value that was set last, and the entries stand in
the order in which their keys were set first.
-/

namespace LanguageRuntime.Gc

open LanguageRuntime LanguageRuntime.Library

/-- A key of a map: a scalar, or the bytes of a string. -/
inductive MapKey where
  | scalar (value : Value)
  | text (bytes : List UInt8)
deriving DecidableEq

namespace Store

/-- The key that a value is. -/
def content (s : Store) (key : Value) : MapKey := (s.bytes key).elim (.scalar key) .text

/-- The entries of a map, in order. -/
def dictionary (s : Store) (m : MapPayload) : List (MapKey × Value) :=
  m.entries.map fun e => (s.content e.key, e.value)

/-- What an event makes of the dictionary of the map with the number `k`. -/
def recorded (s : Store) (k : ℕ) (event : Event) (d : List (MapKey × Value)) :
    List (MapKey × Value) :=
  match event with
  | ⟨.call (.mapSet id key value), some none⟩ =>
    if id.slot = k then setKey (s.content key) value d else d
  | _ => d

/-- What an event makes of the value of a key in the map with the number `k`. -/
def lastSet (s : Store) (k : ℕ) (content : MapKey) (event : Event)
    (found : Option Value) : Option Value :=
  match event with
  | ⟨.call (.mapSet id key value), some none⟩ =>
    if id.slot = k ∧ content = s.content key then some value else found
  | _ => found

section Dictionary

variable {s s' : Store} {k : ℕ} {event : Event} {m m' : MapPayload} {key stored value : Value}
  {c : MapKey} {d : List (MapKey × Value)} {id : ObjectId}

theorem content_of_bytes {bytes : List UInt8} (hbytes : s.bytes key = some bytes) :
    s.content key = .text bytes := by
  rw [content, hbytes, Option.elim_some]

theorem content_of_isScalar (hkey : key.isScalar = true) : s.content key = .scalar key := by
  cases key with
  | object id => cases hkey
  | _ => rfl

/-- The keys that a map takes are the same if they have the same content. -/
theorem sameKey_eq (hstored : s.accepts m stored = true) (hkey : s.accepts m key = true) :
    s.sameKey m.keyIsRef stored key = decide (s.content stored = s.content key) := by
  unfold accepts at hstored hkey
  cases href : m.keyIsRef with
  | true =>
    rw [if_pos href] at hstored hkey
    obtain ⟨bytes, hbytes⟩ := Option.isSome_iff_exists.mp hstored
    obtain ⟨bytes', hbytes'⟩ := Option.isSome_iff_exists.mp hkey
    rw [sameKey, if_pos rfl, content_of_bytes hbytes, content_of_bytes hbytes', hbytes, hbytes']
    exact Bool.eq_iff_iff.mpr (by simp)
  | false =>
    have hne : ¬m.keyIsRef = true := by rw [href]; exact Bool.false_ne_true
    rw [if_neg hne] at hstored hkey
    rw [sameKey, if_neg Bool.false_ne_true, content_of_isScalar hstored, content_of_isScalar hkey]
    exact Bool.eq_iff_iff.mpr (by simp)

theorem findEntry_eq (hstored : ∀ e ∈ m.entries, s.accepts m e.key = true)
    (hkey : s.accepts m key = true) : s.findEntry m key =
      m.entries.findIdx? fun e => decide (s.content e.key = s.content key) := by
  have hsame : ∀ e ∈ m.entries, s.sameKey m.keyIsRef e.key key =
      decide (s.content e.key = s.content key) := fun e he => sameKey_eq (hstored e he) hkey
  unfold findEntry
  generalize m.entries = entries at hsame
  induction entries with
  | nil => rfl
  | cons e entries ih =>
    rw [List.findIdx?_cons, List.findIdx?_cons, hsame e List.mem_cons_self,
      ih fun e' he' => hsame e' (List.mem_cons_of_mem _ he')]

/-- A store into a map sets a key of its dictionary. -/
theorem dictionary_setEntry (hstored : ∀ e ∈ m.entries, s.accepts m e.key = true)
    (hkey : s.accepts m key = true) : s.dictionary (s.setEntry m key value) =
      setKey (s.content key) value (s.dictionary m) := by
  have hset := map_setKey (f := fun e : MapEntry => (s.content e.key, e.value)) (l := m.entries)
    (g := fun e => { e with value := value }) (a := ⟨key, value⟩) (fun _ => rfl) rfl
  rw [dictionary, dictionary, hset, setEntry, findEntry_eq hstored hkey]
  cases m.entries.findIdx? fun e => decide (s.content e.key = s.content key) <;> rfl

/-- A lookup in a map finds what its dictionary has. -/
theorem lookup_dictionary (hstored : ∀ e ∈ m.entries, s.accepts m e.key = true)
    (hkey : s.accepts m key = true) : (s.dictionary m).lookup (s.content key) =
      (s.findEntry m key).bind fun entry => m.entries[entry]?.map MapEntry.value := by
  rw [dictionary, lookup_map, findEntry_eq hstored hkey]

theorem loadField_mapGet (hstored : ∀ e ∈ m.entries, s.accepts m e.key = true)
    (hkey : s.accepts m key = true) : s.loadField (.mapGet id key) (.map m) =
      ((s.dictionary m).lookup (s.content key)).map .value := by
  rw [lookup_dictionary hstored hkey]
  show (if s.accepts m key then _ else _) = _
  rw [if_pos hkey, Option.map_bind]
  cases s.findEntry m key with
  | none => rfl
  | some entry =>
    rw [Option.bind_some, Option.bind_some]
    exact (Option.map_map _ _ _).symm

theorem loadField_mapHas (hstored : ∀ e ∈ m.entries, s.accepts m e.key = true)
    (hkey : s.accepts m key = true) : s.loadField (.mapHas id key) (.map m) =
      some (.flag ((s.dictionary m).lookup (s.content key)).isSome) := by
  rw [lookup_dictionary hstored hkey]
  show (if s.accepts m key then _ else _) = _
  rw [if_pos hkey]
  cases hfound : s.findEntry m key with
  | none => rfl
  | some entry =>
    obtain ⟨hlt, -⟩ := List.findIdx?_eq_some_iff_getElem.mp hfound
    rw [Option.bind_some, List.getElem?_eq_getElem hlt]
    rfl

theorem lookup_recorded : (s.recorded k event d).lookup c = s.lastSet k c event (d.lookup c) := by
  obtain ⟨action, outcome⟩ := event
  cases action with
  | setRoots cells => rfl
  | call op =>
    rcases outcome with _ | _ | id
    · cases op <;> rfl
    · cases op with
      | mapSet id key value =>
        show (if id.slot = k then setKey (s.content key) value d else d).lookup c =
          if id.slot = k ∧ c = s.content key then some value else d.lookup c
        split
        · next hslot => simp only [lookup_setKey, hslot, true_and]
        · next hslot => rw [if_neg fun hand => hslot hand.1]
      | _ => rfl
    · cases op <;> rfl

/-! ### One event -/

/-- The keys of a map have the content they had. -/
theorem Step.content_eq (hs : s.Sound) (hstep : s.Step event s')
    (hknown : ∀ id, .object id ∈ (Payload.map m).allFields → s.Alive id.slot) {e : MapEntry}
    (he : e ∈ m.entries) (haccepts : s'.accepts m e.key = true) : s'.content e.key = s.content e.key := by
  unfold accepts at haccepts
  split at haccepts
  · next href =>
    obtain ⟨bytes, hbytes⟩ := Option.isSome_iff_exists.mp haccepts
    obtain ⟨id, hkey, hid⟩ := bytes_eq_some.mp hbytes
    have hfield : .object id ∈ (Payload.map m).allFields := by
      refine List.mem_append_left _ (List.mem_flatMap.mpr ⟨e, he, ?_⟩)
      simp [MapEntry.referenceFields, href, hkey]
    have hbefore := hstep.objects_string hs (hs.below _ (hknown id hfield)) hid
    rw [content_of_bytes hbytes, content_of_bytes (bytes_eq_some.mpr ⟨id, hkey, hbefore⟩)]
  · rw [content_of_isScalar haccepts, content_of_isScalar haccepts]

theorem Step.dictionary_eq (hs : s.Sound) (hstep : s.Step event s')
    (hknown : ∀ id, .object id ∈ (Payload.map m).allFields → s.Alive id.slot)
    (haccepts : ∀ e ∈ m.entries, s'.accepts m e.key = true) : s'.dictionary m = s.dictionary m := by
  refine List.map_congr_left fun e he => ?_
  rw [hstep.content_eq hs hknown he (haccepts e he)]

/-- An event makes of a map what it makes of its dictionary. -/
theorem Step.dictionary (hs : s.Sound) (hstep : s.Step event s')
    (hp : s.objects k = some (.map m)) (hp' : s'.objects k = some (.map m'))
    (haccepts : ∀ e ∈ m.entries, s.accepts m e.key = true)
    (haccepts' : ∀ e ∈ m'.entries, s'.accepts m' e.key = true) :
    m'.keyIsRef = m.keyIsRef ∧ s'.dictionary m' = s.recorded k event (s.dictionary m) := by
  by_cases htarget : ∃ id, event.target = some id ∧ id.slot = k
  · obtain ⟨id, hid, rfl⟩ := htarget
    obtain ⟨op, p, p', rfl, howner, hp₀, hnew, hfields, hleft⟩ := hstep.stores_into hid
    cases hp.symm.trans hp₀
    obtain ⟨hforwards, heq⟩ := hleft _ hp'
    have hkind : p'.kind = .map := by rw [← Payload.kind_forward s'.keep p', ← heq]; rfl
    cases p' with
    | map m₁ =>
      rw [forward_keep_strong rfl hforwards] at heq
      cases heq
      obtain ⟨id', key, value, m₀, rfl, hm₀, rfl⟩ := newFields_eq_map hnew
      cases hm₀
      cases howner
      obtain ⟨hkey, -⟩ := Option.ite_none_right_eq_some.mp hnew
      rw [hstep.dictionary_eq hs hfields haccepts', dictionary_setEntry haccepts hkey]
      exact ⟨setEntry_keyIsRef, (if_pos rfl).symm⟩
    | _ => cases hkind
  · have hother : ∀ id, event.target = some id → id.slot ≠ k := fun id hid heq =>
      htarget ⟨id, hid, heq⟩
    obtain ⟨p, hp₀, hforwards, heq⟩ :=
      hstep.keepsObject hs (hs.below k (alive_of_objects hp)) hother _ hp'
    cases hp.symm.trans hp₀
    rw [forward_keep_strong rfl hforwards] at heq
    cases heq
    rw [hstep.dictionary_eq hs (hs.closed k _ hp) haccepts']
    refine ⟨rfl, ?_⟩
    unfold recorded
    split
    · next id key value => rw [if_neg (hother id rfl)]
    · rfl

end Dictionary

end Store

namespace Heap

section Dictionary

variable {h : Heap} {id : ObjectId} {k index : ℕ} {m m' : MapPayload} {key : Value}
  {actions : List Action} {c : MapKey} {d : List (MapKey × Value)}

/-- The dictionary that the stores into the map with the number `k` make. -/
def recorded (h : Heap) (k : ℕ) (d : List (MapKey × Value)) (actions : List Action) :
    List (MapKey × Value) :=
  h.foldEvents (fun s event => s.recorded k event) d actions

/-- The value that was set last for a key of the map with the number `k`. -/
def lastSet (h : Heap) (k : ℕ) (content : MapKey) (found : Option Value)
    (actions : List Action) : Option Value :=
  h.foldEvents (fun s event => s.lastSet k content event) found actions

theorem lookup_recorded : (h.recorded k d actions).lookup c = h.lastSet k c (d.lookup c) actions :=
  (foldEvents_hom (h := h) (fun d => d.lookup c) (fun _ _ _ => Store.lookup_recorded.symm) d).symm

/-- The keys of the maps in a heap are keys that they take. -/
theorem Stands.accepts_entries (hs : h.Stands) (hp : h.store.objects k = some (.map m)) :
    ∀ e ∈ m.entries, h.store.accepts m e.key = true := by
  obtain ⟨slot, o, ho, -, heq⟩ := (store_objects hs.numbered).mp hp
  cases hp₀ : o.payload with
  | map m₀ =>
    rw [hp₀, numberPayload_map (hp₀ ▸ o.shape) (hp₀ ▸ hs.fields slot o ho)] at heq
    cases heq
    intro e he
    obtain ⟨e₀, he₀, rfl⟩ := List.mem_map.mp he
    show (if m₀.keyIsRef then (h.store.bytes (h.numberValue e₀.key)).isSome
      else (h.numberValue e₀.key).isScalar) = true
    split
    · next href =>
      obtain ⟨id, bytes, hkey, hbytes⟩ := hs.stringKey ho hp₀ href he₀
      rw [hkey, bytes_of_checkedString hs.numbered hbytes, Option.isSome_some]
    · next href =>
      have hscalar := (mapEntry_key (hp₀ ▸ o.shape) he₀).2 (Bool.eq_false_iff.mpr href)
      rw [numberValue_scalar (isObject_of_isScalar hscalar), hscalar]
  | _ =>
    rw [hp₀] at heq
    have hkind := congrArg Payload.kind heq
    rw [numberPayload, Payload.kind_visible, Payload.kind_forward] at hkind
    cases hkind

/-- After any regular actions a map is what the stores into it have made. -/
theorem Stands.dictionary {p' : Payload} (hs : h.Stands)
    (hm : Meets (fun h action => action.after h) Regular h actions)
    (hp : h.store.objects k = some (.map m)) (hp' : (h.run actions).store.objects k = some p') :
    ∃ m', p' = .map m' ∧ m'.keyIsRef = m.keyIsRef ∧
      (h.run actions).store.dictionary m' = h.recorded k (h.store.dictionary m) actions := by
  induction actions generalizing h m with
  | nil =>
    cases hp.symm.trans hp'
    exact ⟨m, rfl, rfl, rfl⟩
  | cons action actions ih =>
    obtain ⟨hstep, hs₁⟩ := hs.step hm.1
    have hk := hs.sound.below k (Store.alive_of_objects hp)
    have halive := (hs₁.runs hm.2).1.alive (hk.trans_le hstep.next_le) (Store.alive_of_objects hp')
    obtain ⟨p₁, hp₁⟩ := Option.isSome_iff_exists.mp halive
    have hkind : p₁.kind = .map := hstep.kind_eq hs.sound hp hp₁
    cases p₁ with
    | map m₁ =>
      obtain ⟨href, hd⟩ :=
        hstep.dictionary hs.sound hp hp₁ (hs.accepts_entries hp) (hs₁.accepts_entries hp₁)
      obtain ⟨m', hm', href', hd'⟩ := ih hs₁ hm.2 hp₁ hp'
      rw [hd] at hd'
      exact ⟨m', hm', href'.trans href, hd'⟩
    | _ => cases hkind

/-- An entry of a map as the loads return it. -/
def entryAt (h : Heap) (id : ObjectId) (index : ℕ) : Option (MapKey × Value) :=
  match h.observed ((Load.mapKeyAt id index).run h), h.observed ((Load.mapValueAt id index).run h) with
  | some (.value key), some (.value value) => some (h.store.content key, value)
  | _, _ => none

/-- After any regular actions, whatever the collector has done, the entries of a map are those of
the dictionary that the stores into it have made, in the order in which the keys were set first, and
a lookup finds the value that was set last for a key with the same content. -/
theorem Reachable.map_dictionary (hr : h.Reachable)
    (hregular : Meets (fun h action => action.after h) Regular h actions)
    (hp : h.store.objects k = some (.map m)) (hid : (h.run actions).number id = some (numbered k)) :
    (h.run actions).observed ((Load.mapLength id).run (h.run actions)) =
        some (.count (h.recorded k (h.store.dictionary m) actions).length) ∧
      (∀ index, (h.run actions).entryAt id index =
        (h.recorded k (h.store.dictionary m) actions)[index]?) ∧
      ∀ key content, (h.run actions).Valid key →
        (h.run actions).store.accepts m ((h.run actions).numberValue key) = true →
        (h.run actions).store.content ((h.run actions).numberValue key) = content →
        (h.run actions).observed ((Load.mapHas id key).run (h.run actions)) = some (.flag
            (h.lastSet k content ((h.store.dictionary m).lookup content) actions).isSome) ∧
          (h.run actions).observed ((Load.mapGet id key).run (h.run actions)) =
            (h.lastSet k content ((h.store.dictionary m).lookup content) actions).map .value := by
  have hs' := (hr.run hregular).stands
  obtain ⟨p', hp'⟩ := hs'.exists_objects hid
  obtain ⟨m', rfl, href, hd⟩ := hr.stands.dictionary hregular hp hp'
  have hload := fun (l : Load) (howner : l.owner = id) hoperands =>
    hs'.load_of_number (l := l) (howner ▸ hid) hp' hoperands
  rw [← hd]
  refine ⟨?_, fun index => ?_, fun key content hkey haccepts hcontent => ?_⟩
  · rw [hload (.mapLength id) rfl nofun, Store.dictionary, List.length_map]
    rfl
  · rw [entryAt, hload (.mapKeyAt id index) rfl nofun, hload (.mapValueAt id index) rfl nofun,
      Store.dictionary, List.getElem?_map]
    show (match m'.entries[index]?.map fun e => Loaded.value e.key,
      m'.entries[index]?.map fun e => Loaded.value e.value with
      | some (.value key), some (.value value) => some ((h.run actions).store.content key, value)
      | _, _ => none) = _
    cases m'.entries[index]? <;> rfl
  · have haccepts' : (h.run actions).store.accepts m' ((h.run actions).numberValue key) = true := by
      unfold Store.accepts at haccepts ⊢
      rwa [href]
    have hstored := hs'.accepts_entries hp'
    have hoperand : ∀ v ∈ [key], (h.run actions).Valid v := fun v hv => List.mem_singleton.mp hv ▸ hkey
    rw [← lookup_recorded, ← hd, ← hcontent, hload (.mapHas id key) rfl hoperand,
      hload (.mapGet id key) rfl hoperand]
    exact ⟨Store.loadField_mapHas hstored haccepts', Store.loadField_mapGet hstored haccepts'⟩

/-- A map whose entry is set again by another string with the bytes of its key. -/
theorem reachable_map_set :
    let h := (Heap.empty .quiet).run [.call (.allocatePair .nil .nil),
      .call (.allocateString [97]), .setRoots [.object ⟨1, 1⟩], .call (.allocateMap 0 true false),
      .setRoots [.object ⟨3, 1⟩, .nil]]
    let h' := h.run [.call (.mapSet ⟨3, 1⟩ (.object ⟨1, 1⟩) (.bool true)), .call .collect,
      .call (.allocateString [97]), .call (.mapSet ⟨2, 1⟩ (.object ⟨6, 1⟩) (.bool false))]
    h'.observed ((Load.mapGet ⟨2, 1⟩ (.object ⟨6, 1⟩)).run h') = some (.value (.bool false)) := by
  intro h h'
  have hreachable : h.Reachable := reachable_of_called .quiet (by decide +kernel)
  have hp : h.store.objects 2 = some (.map ⟨0, true, false, [], []⟩) := by decide +kernel
  have hid : (h.run [.call (.mapSet ⟨3, 1⟩ (.object ⟨1, 1⟩) (.bool true)), .call .collect,
      .call (.allocateString [97]), .call (.mapSet ⟨2, 1⟩ (.object ⟨6, 1⟩) (.bool false))]).number
      ⟨2, 1⟩ = some (numbered 2) := by decide +kernel
  have hloads := hreachable.map_dictionary (regular_of_called (by decide +kernel)) hp hid
  exact (hloads.2.2 (.object ⟨6, 1⟩) (.text [97]) (by decide +kernel) (by decide +kernel)
    (by decide +kernel)).2.trans (by decide +kernel)

end Dictionary

end Heap

end LanguageRuntime.Gc
