import LanguageRuntime.Library.Tables
import Mathlib.Data.Fintype.Card
import Mathlib.Data.Fintype.Fin

/-!
# Linear probing

An open-addressing index: a table of buckets in which `0` is an empty bucket and `i + 1` names
the entry `i`. An entry is found by probing from its home bucket, one bucket after the other
and around the end of the table, without meeting an empty one.
-/

namespace LanguageRuntime.Library

/-- The probe from `home` reaches `target` through occupied buckets only. -/
def Probes (index : List ℕ) (home target : ℕ) : Prop :=
  ∃ d < index.length, (home + d) % index.length = target ∧
    ∀ d' < d, index.getD ((home + d') % index.length) 0 ≠ 0

/-- The index names every entry once and finds it from its home bucket. -/
structure Indexes (index : List ℕ) (homes : List ℕ) : Prop where
  small : ∀ bucket, index.getD bucket 0 ≤ homes.length
  entry : ∀ i home, homes[i]? = some home → ∃ bucket, index.getD bucket 0 = i + 1 ∧
    Probes index home bucket
  unique : ∀ bucket bucket', index.getD bucket 0 ≠ 0 →
    index.getD bucket 0 = index.getD bucket' 0 → bucket = bucket'

/-- The empty table indexes no entries. -/
theorem indexes_replicate (capacity : ℕ) : Indexes (List.replicate capacity 0) [] where
  small := by simp
  entry := by simp
  unique := by simp

section Open

variable {index homes : List ℕ}

/-- A table with more buckets than entries has an empty bucket. -/
theorem Indexes.exists_empty (h : Indexes index homes) (hlt : homes.length < index.length) :
    ∃ bucket < index.length, index.getD bucket 0 = 0 := by
  by_contra hfull
  have hpos : ∀ bucket < index.length, index.getD bucket 0 ≠ 0 := fun bucket hb h0 =>
    hfull ⟨bucket, hb, h0⟩
  -- sending a bucket to the entry it names is injective
  let f : Fin index.length → Fin homes.length := fun bucket =>
    ⟨index.getD bucket 0 - 1, by
      have hne := hpos bucket bucket.isLt
      have hle := h.small bucket
      omega⟩
  have hinj : Function.Injective f := by
    intro bucket bucket' heq
    have hne := hpos bucket bucket.isLt
    have hne' := hpos bucket' bucket'.isLt
    have hval : index.getD bucket 0 - 1 = index.getD bucket' 0 - 1 := congrArg Fin.val heq
    exact Fin.ext (h.unique bucket bucket' hne (by omega))
  have hcard := Fintype.card_le_of_injective f hinj
  simp only [Fintype.card_fin] at hcard
  omega

/-- From any home the probe meets a first empty bucket. -/
theorem exists_first_empty {bucket : ℕ} (home : ℕ) (hb : bucket < index.length)
    (hempty : index.getD bucket 0 = 0) :
    ∃ target, index.getD target 0 = 0 ∧ target < index.length ∧ Probes index home target := by
  have hcapacity : 0 < index.length := Nat.zero_lt_of_lt hb
  have hex : ∃ d, index.getD ((home + d) % index.length) 0 = 0 := by
    refine ⟨index.length - home % index.length + bucket, ?_⟩
    have hmod := Nat.mod_lt home hcapacity
    have heq : home + (index.length - home % index.length + bucket) =
        bucket + index.length * (home / index.length + 1) := by
      have hdiv := Nat.div_add_mod home index.length
      rw [Nat.mul_add, Nat.mul_one]
      omega
    rw [heq, Nat.add_mul_mod_self_left, Nat.mod_eq_of_lt hb]
    exact hempty
  refine ⟨(home + Nat.find hex) % index.length, Nat.find_spec hex, Nat.mod_lt _ hcapacity,
    Nat.find hex, ?_, rfl, fun d' hd' => Nat.find_min hex hd'⟩
  -- within one round every bucket is met
  by_contra hge
  have hround : index.getD ((home + (Nat.find hex - index.length)) % index.length) 0 ≠ 0 :=
    Nat.find_min hex (by omega)
  have hsame : (home + (Nat.find hex - index.length)) % index.length =
      (home + Nat.find hex) % index.length := by
    have heq : home + Nat.find hex = home + (Nat.find hex - index.length) + index.length := by
      omega
    rw [heq, Nat.add_mod_right]
  rw [hsame] at hround
  exact hround (Nat.find_spec hex)

/-- A probe that has come to an empty bucket has passed the bucket it was to reach. -/
theorem Probes.passed {home target d : ℕ} (h : Probes index home target)
    (htarget : index.getD target 0 ≠ 0) (hempty : index.getD ((home + d) % index.length) 0 = 0) :
    ∃ d' < d, (home + d') % index.length = target := by
  obtain ⟨d', -, hd', hbetween⟩ := h
  refine ⟨d', ?_, hd'⟩
  by_contra hlt
  rcases Nat.lt_or_eq_of_le (Nat.not_lt.mp hlt) with hbefore | rfl
  · exact hbetween d hbefore hempty
  · rw [hd'] at hempty
    exact htarget hempty

/-- A probe stays valid when an empty bucket is filled. -/
theorem Probes.set {home target bucket value : ℕ} (h : Probes index home target)
    (hvalue : value ≠ 0) : Probes (index.set bucket value) home target := by
  obtain ⟨d, hd, htarget, hbetween⟩ := h
  refine ⟨d, by rwa [List.length_set], by rwa [List.length_set], fun d' hd' => ?_⟩
  rw [List.length_set, getD_set]
  split
  · exact hvalue
  · exact hbetween d' hd'

/-- Filling the first empty bucket of the probe of a new entry. -/
theorem Indexes.insert {home target : ℕ} (h : Indexes index homes)
    (hempty : index.getD target 0 = 0) (htarget : target < index.length)
    (hprobes : Probes index home target) :
    Indexes (index.set target (homes.length + 1)) (homes ++ [home]) where
  small bucket := by
    rw [getD_set, List.length_append, List.length_singleton]
    split
    · exact le_rfl
    · exact (h.small bucket).trans (Nat.le_succ _)
  entry i home' hi := by
    by_cases hlast : i < homes.length
    · rw [List.getElem?_append_left hlast] at hi
      obtain ⟨bucket, hbucket, hprobes'⟩ := h.entry i home' hi
      refine ⟨bucket, ?_, hprobes'.set (Nat.succ_ne_zero _)⟩
      rw [getD_set_ne]
      · exact hbucket
      · rintro rfl
        omega
    · obtain ⟨rfl, rfl⟩ : i = homes.length ∧ home' = home := by
        rw [List.getElem?_append_right (Nat.not_lt.mp hlast)] at hi
        have hlt := (List.getElem?_eq_some_iff.mp hi).1
        simp only [List.length_singleton] at hlt
        have hi0 : i - homes.length = 0 := by omega
        rw [hi0] at hi
        exact ⟨by omega, by simpa using hi.symm⟩
      exact ⟨target, getD_set_self _ _ htarget, hprobes.set (Nat.succ_ne_zero _)⟩
  unique bucket bucket' hne heq := by
    have hsmall := h.small bucket
    have hsmall' := h.small bucket'
    rw [getD_set] at hne heq
    rw [getD_set] at heq
    split at heq <;> split at heq
    · next hb hb' => exact hb.1.symm.trans hb'.1
    · omega
    · omega
    · next hb hb' =>
      rw [if_neg hb] at hne
      exact h.unique bucket bucket' hne heq

end Open

end LanguageRuntime.Library
