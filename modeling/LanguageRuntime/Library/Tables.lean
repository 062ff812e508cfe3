import Mathlib.Data.List.GetD
import Mathlib.Data.List.Nodup

/-!
# Lists as tables with a default

A list read through `getD` with a fixed default is a table that is total and has finitely
many entries other than the default.
-/

namespace LanguageRuntime.Library

variable {α β : Type}

theorem getD_set (l : List α) (i j : ℕ) (a d : α) :
    (l.set i a).getD j d = if i = j ∧ i < l.length then a else l.getD j d := by
  simp only [List.getD_eq_getElem?_getD, List.getElem?_set]
  by_cases hij : i = j
  · subst hij
    by_cases hi : i < l.length
    · simp [hi]
    · simp [hi]
  · simp [hij]

theorem getD_set_self {l : List α} {i : ℕ} (a d : α) (hi : i < l.length) :
    (l.set i a).getD i d = a := by
  rw [getD_set, if_pos ⟨rfl, hi⟩]

theorem getD_set_ne {i j : ℕ} (l : List α) (a d : α) (hij : i ≠ j) :
    (l.set i a).getD j d = l.getD j d := by
  rw [getD_set, if_neg fun h => hij h.1]

/-- Writing the default removes an entry, also beyond the end of the list. -/
theorem getD_set_default (l : List α) (i j : ℕ) (d : α) :
    (l.set i d).getD j d = if i = j then d else l.getD j d := by
  rw [getD_set]
  by_cases hij : i = j
  · subst hij
    by_cases hi : i < l.length
    · simp [hi]
    · rw [if_neg fun h => hi h.2, if_pos rfl, List.getD_eq_default _ _ (Nat.not_lt.mp hi)]
  · rw [if_neg fun h => hij h.1, if_neg hij]

@[simp] theorem getD_replicate_default (n i : ℕ) (d : α) : (List.replicate n d).getD i d = d := by
  by_cases hi : i < n
  · exact List.getD_replicate _ hi
  · exact List.getD_eq_default _ _ (by simpa using hi)

/-- Padding a table with defaults changes none of its entries. -/
@[simp] theorem getD_append_default (l : List α) (n i : ℕ) (d : α) :
    (l ++ List.replicate n d).getD i d = l.getD i d := by
  by_cases hi : i < l.length
  · exact List.getD_append _ _ _ _ hi
  · rw [List.getD_append_right _ _ _ _ (Nat.not_lt.mp hi), getD_replicate_default,
      List.getD_eq_default _ _ (Nat.not_lt.mp hi)]

/-- An entry other than the default lies inside the table. -/
theorem lt_length_of_getD_ne {l : List α} {i : ℕ} {d : α} (h : l.getD i d ≠ d) :
    i < l.length :=
  Nat.lt_of_not_le fun hi => h (List.getD_eq_default _ _ hi)

theorem lt_length_of_getD_eq_some {l : List (Option α)} {i : ℕ} {a : α}
    (h : l.getD i none = some a) : i < l.length :=
  lt_length_of_getD_ne fun hnone : l.getD i none = none => nomatch h.symm.trans hnone

theorem getD_map_option (f : α → β) (l : List (Option α)) (i : ℕ) :
    (l.map (Option.map f)).getD i none = (l.getD i none).map f :=
  List.getD_map l none (Option.map f)

theorem getD_bind_option (f : α → Option β) (l : List (Option α)) (i : ℕ) :
    (l.map fun slot => slot.bind f).getD i none = (l.getD i none).bind f :=
  List.getD_map l none fun slot => slot.bind f

/-! ## Updating some of the entries -/

/-- Applies `f` to the entry at `i`. -/
def touch (f : α → α) (l : List (Option α)) (i : ℕ) : List (Option α) :=
  l.set i ((l.getD i none).map f)

@[simp] theorem length_touch (f : α → α) (l : List (Option α)) (i : ℕ) :
    (touch f l i).length = l.length := List.length_set

theorem getD_touch (f : α → α) (l : List (Option α)) (i j : ℕ) :
    (touch f l i).getD j none = if i = j then (l.getD j none).map f else l.getD j none := by
  rw [touch, getD_set]
  by_cases hij : i = j
  · subst hij
    by_cases hi : i < l.length
    · rw [if_pos ⟨rfl, hi⟩, if_pos rfl]
    · rw [if_neg fun h => hi h.2, if_pos rfl, List.getD_eq_default _ _ (Nat.not_lt.mp hi)]
      rfl
  · rw [if_neg fun h => hij h.1, if_neg hij]

@[simp] theorem length_foldl_touch (f : α → α) (l : List (Option α)) (indices : List ℕ) :
    (indices.foldl (touch f) l).length = l.length := by
  induction indices generalizing l with
  | nil => rfl
  | cons i indices ih => rw [List.foldl_cons, ih, length_touch]

/-- Entries touched once each. -/
theorem getD_foldl_touch (f : α → α) (l : List (Option α)) {indices : List ℕ}
    (hnodup : indices.Nodup) (j : ℕ) :
    (indices.foldl (touch f) l).getD j none =
      if j ∈ indices then (l.getD j none).map f else l.getD j none := by
  induction indices generalizing l with
  | nil => simp
  | cons i indices ih =>
    obtain ⟨hi, hnodup⟩ := List.nodup_cons.mp hnodup
    rw [List.foldl_cons, ih _ hnodup, getD_touch]
    by_cases hj : j ∈ indices
    · have hne : i ≠ j := fun heq => hi (heq ▸ hj)
      rw [if_pos hj, if_neg hne, if_pos (List.mem_cons_of_mem _ hj)]
    · rw [if_neg hj]
      by_cases heq : i = j
      · rw [if_pos heq, if_pos (heq ▸ List.mem_cons_self)]
      · rw [if_neg heq, if_neg fun hmem => (List.mem_cons.mp hmem).elim (fun h => heq h.symm) hj]

/-- Two tables of one length with the same entries are equal. -/
theorem ext_getD {l l' : List α} (d : α) (hlength : l.length = l'.length)
    (h : ∀ i, l.getD i d = l'.getD i d) : l = l' := by
  refine List.ext_getElem hlength fun i hi hi' => ?_
  have hget := h i
  rwa [List.getD_eq_getElem _ _ hi, List.getD_eq_getElem _ _ hi'] at hget

/-! ## Lists sorted by a key -/

section Sorted

variable {α : Type} {key : α → ℕ} {l : List α} {a b : α} {n : ℕ}

theorem eq_of_key_eq (hl : l.Pairwise (key · < key ·)) (ha : a ∈ l) (hb : b ∈ l)
    (heq : key a = key b) : a = b := by
  have hkeys : (l.map key).Pairwise (· < ·) := List.pairwise_map.mpr hl
  have hnodup : (l.map key).Nodup := hkeys.imp Nat.ne_of_lt
  exact List.inj_on_of_nodup_map hnodup ha hb heq

/-- A prefix of a sorted list is closed downwards. -/
theorem mem_take_of_key_lt (hl : l.Pairwise (key · < key ·)) (ha : a ∈ l) (hb : b ∈ l.take n)
    (hlt : key a < key b) : a ∈ l.take n := by
  rw [← List.take_append_drop n l] at hl ha
  rcases List.mem_append.mp ha with h | h
  · exact h
  · have hgt := (List.pairwise_append.mp hl).2.2 b hb a h
    omega

end Sorted

/-- Lists that are related place by place to a list in between are so to each other. -/
theorem forall₂_trans {γ : Type} {R : α → β → Prop} {S : β → γ → Prop} {T : α → γ → Prop}
    (hRS : ∀ a b c, R a b → S b c → T a c) {as : List α} {bs : List β} {cs : List γ}
    (hR : List.Forall₂ R as bs) (hS : List.Forall₂ S bs cs) : List.Forall₂ T as cs := by
  induction hR generalizing cs with
  | nil =>
    cases hS
    exact .nil
  | cons hhead _ ih =>
    cases hS with
    | cons hhead' htail' => exact .cons (hRS _ _ _ hhead hhead') (ih htail')

/-- Lists with the same images are related by whatever relates elements with the same image. -/
theorem forall₂_of_map_eq {γ : Type} {R : α → β → Prop} {f : α → γ} {g : β → γ} {as : List α}
    {bs : List β} (h : bs.map g = as.map f) (hR : ∀ a ∈ as, ∀ b ∈ bs, g b = f a → R a b) :
    List.Forall₂ R as bs := by
  induction as generalizing bs with
  | nil =>
    rw [List.map_eq_nil_iff.mp h]
    exact .nil
  | cons a as ih =>
    cases bs with
    | nil => cases h
    | cons b bs =>
      obtain ⟨hhead, htail⟩ := List.cons.inj h
      refine .cons (hR a List.mem_cons_self b List.mem_cons_self hhead) (ih htail ?_)
      exact fun a' ha' b' hb' => hR a' (List.mem_cons_of_mem _ ha') b' (List.mem_cons_of_mem _ hb')

theorem forall₂_right {R : α → β → Prop} {as : List α} {bs : List β} (h : List.Forall₂ R as bs) :
    ∀ b ∈ bs, ∃ a ∈ as, R a b := by
  induction h with
  | nil => exact fun b hb => nomatch hb
  | @cons a b as bs hhead _ ih =>
    intro b' hb'
    rcases List.mem_cons.mp hb' with rfl | hmem
    · exact ⟨a, List.mem_cons_self, hhead⟩
    · obtain ⟨a', ha', hr⟩ := ih b' hmem
      exact ⟨a', List.mem_cons_of_mem _ ha', hr⟩

end LanguageRuntime.Library
