import Mathlib.Data.List.Basic

/-!
# Dictionaries in insertion order

Lists of keys and values in which a key that is set again keeps its place.
-/

namespace LanguageRuntime.Library

variable {κ ν α : Type} [DecidableEq κ] {key key' : κ} {value : ν} {entries : List (κ × ν)}

/-- Sets the value of a key: a key that is there keeps its place, a new one comes last. -/
def setKey (key : κ) (value : ν) : List (κ × ν) → List (κ × ν)
  | [] => [(key, value)]
  | entry :: entries =>
    if entry.1 = key then (key, value) :: entries else entry :: setKey key value entries

theorem lookup_cons_ite {entry : κ × ν} : (entry :: entries).lookup key =
    if key = entry.1 then some entry.2 else entries.lookup key := by
  rw [List.lookup_cons]
  by_cases hkey : key = entry.1
  · rw [if_pos hkey, hkey, beq_self_eq_true]
  · rw [if_neg hkey, beq_eq_false_iff_ne.mpr hkey]

/-- A key that has been set has its value, and the others have the value they had. -/
theorem lookup_setKey : (setKey key value entries).lookup key' =
    if key' = key then some value else entries.lookup key' := by
  induction entries with
  | nil => exact lookup_cons_ite
  | cons entry entries ih =>
    unfold setKey
    split
    · next hentry =>
      rw [lookup_cons_ite, lookup_cons_ite, ← hentry]
      split <;> rfl
    · next hentry =>
      rw [lookup_cons_ite, lookup_cons_ite, ih]
      by_cases hkey : key' = entry.1
      · rw [if_pos hkey, if_pos hkey, if_neg (hkey ▸ hentry)]
      · rw [if_neg hkey, if_neg hkey]

/-! ### Lists with the entries of a dictionary -/

variable {f : α → κ × ν} {a : α} {l : List α}

/-- A lookup finds the first entry of the key. -/
theorem lookup_map : (l.map f).lookup key =
    (l.findIdx? fun a => decide ((f a).1 = key)).bind fun i => l[i]?.map fun a => (f a).2 := by
  induction l with
  | nil => rfl
  | cons a l ih =>
    rw [List.map_cons, lookup_cons_ite, List.findIdx?_cons, ih]
    by_cases hkey : (f a).1 = key
    · simp [hkey]
    · have hne : key ≠ (f a).1 := fun heq => hkey heq.symm
      rw [if_neg hne, decide_eq_false hkey]
      cases l.findIdx? fun a => decide ((f a).1 = key) <;> rfl

/-- Setting a key changes the first entry of the key, or adds one. -/
theorem map_setKey {g : α → α} (hg : ∀ a, f (g a) = ((f a).1, value)) (hnew : f a = (key, value)) :
    setKey key value (l.map f) =
      ((l.findIdx? fun a => decide ((f a).1 = key)).elim (l ++ [a]) fun i => l.modify i g).map f := by
  induction l with
  | nil => simp [setKey, hnew]
  | cons b l ih =>
    rw [List.map_cons, setKey, List.findIdx?_cons]
    by_cases hkey : (f b).1 = key
    · simp [hkey, hg]
    · simp only [hkey, if_false, decide_false, ih]
      cases l.findIdx? fun a => decide ((f a).1 = key) <;> simp

end LanguageRuntime.Library
