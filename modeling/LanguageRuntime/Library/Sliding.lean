import Mathlib.Order.Monotone.Basic

/-!
# Sliding runs together

Runs of slots given by the width of the run at every base (zero where there is none). Sliding
them towards slot zero, in order and without gaps, gives the run at `base` the base
`slide width base`.
-/

namespace LanguageRuntime.Library

/-- The number of slots that the runs with a base below `base` take. -/
def slide (width : ℕ → ℕ) : ℕ → ℕ
  | 0 => 0
  | base + 1 => slide width base + width base

/-- The runs do not overlap. -/
def DisjointRuns (width : ℕ → ℕ) : Prop :=
  ∀ base base', base < base' → width base ≠ 0 → width base' ≠ 0 → base + width base ≤ base'

section Slide

variable {width : ℕ → ℕ} {base base' : ℕ}

@[simp] theorem slide_zero : slide width 0 = 0 := rfl

@[simp] theorem slide_succ : slide width (base + 1) = slide width base + width base := rfl

theorem slide_mono (h : base ≤ base') : slide width base ≤ slide width base' := by
  induction base' with
  | zero =>
    obtain rfl : base = 0 := by omega
    exact le_rfl
  | succ base' ih =>
    by_cases heq : base = base' + 1
    · rw [heq]
    · have hle := ih (by omega)
      rw [slide_succ]
      omega

/-- A run slides below the runs behind it. -/
theorem slide_add_le (h : base < base') : slide width base + width base ≤ slide width base' := by
  rw [← slide_succ]
  exact slide_mono h

theorem slide_lt (h : base < base') (hwidth : width base ≠ 0) :
    slide width base < slide width base' := by
  have hle : slide width base + width base ≤ slide width base' := slide_add_le h
  omega

theorem slide_injective (hwidth : width base ≠ 0) (hwidth' : width base' ≠ 0)
    (h : slide width base = slide width base') : base = base' := by
  rcases Nat.lt_trichotomy base base' with hlt | heq | hlt
  · have := slide_lt hlt hwidth
    omega
  · exact heq
  · have := slide_lt hlt hwidth'
    omega

/-- The runs fit below any bound they end at. -/
theorem slide_le_bound (hdisjoint : DisjointRuns width) {bound : ℕ}
    (hbound : ∀ b < base, width b ≠ 0 → b + width b ≤ bound) : slide width base ≤ bound := by
  induction base generalizing bound with
  | zero => exact Nat.zero_le _
  | succ base ih =>
    rw [slide_succ]
    by_cases hwidth : width base = 0
    · rw [hwidth]
      exact ih fun b hb => hbound b (by omega)
    · have hle : slide width base ≤ base :=
        ih fun b hb hb' => hdisjoint b base hb hb' hwidth
      have hend := hbound base (Nat.lt_succ_self _) hwidth
      omega

/-- No run slides to a higher base. -/
theorem slide_le (hdisjoint : DisjointRuns width) (hwidth : width base ≠ 0) :
    slide width base ≤ base :=
  slide_le_bound hdisjoint fun b hb hb' => hdisjoint b base hb hb' hwidth

/-- The runs leave no gap. -/
theorem exists_slide_covers {slot : ℕ} (h : slot < slide width base) :
    ∃ b < base, slide width b ≤ slot ∧ slot < slide width b + width b := by
  induction base with
  | zero => exact absurd h (Nat.not_lt_zero _)
  | succ base ih =>
    by_cases hlt : slot < slide width base
    · obtain ⟨b, hb, hcovers⟩ := ih hlt
      exact ⟨b, by omega, hcovers⟩
    · rw [slide_succ] at h
      exact ⟨base, Nat.lt_succ_self _, by omega, h⟩

end Slide

end LanguageRuntime.Library
